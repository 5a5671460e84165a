import ClientForge.Text.Hex

/-!
# Dates and times

Days of the Gregorian calendar in the years 1 to 9999, times of day to the
microsecond, and date-times with or without an offset from universal time. Each has
its ISO text and the constructor notation that messages show for it.
-/

namespace ClientForge

open ClientForge.Text (decimal padded)

/-- A day of the Gregorian calendar. -/
structure Date where
  year : Nat
  month : Nat
  day : Nat
  deriving DecidableEq, Repr, Inhabited

/-- A time of day. -/
structure Time where
  hour : Nat
  minute : Nat
  second : Nat
  micro : Nat
  deriving DecidableEq, Repr, Inhabited

/-- A day with a time and, if known, the offset from universal time in microseconds. -/
structure DateTime where
  date : Date
  time : Time
  offset : Option Int
  deriving DecidableEq, Repr, Inhabited

namespace Date

def isLeap (year : Nat) : Bool := year % 4 == 0 && (year % 100 != 0 || year % 400 == 0)

def daysInMonth (year month : Nat) : Nat :=
  match month with
  | 2 => if isLeap year then 29 else 28
  | 4 | 6 | 9 | 11 => 30
  | _ => 31

/-- A day that exists. -/
def isValid (d : Date) : Bool :=
  1 ≤ d.year && d.year ≤ 9999 && 1 ≤ d.month && d.month ≤ 12 && 1 ≤ d.day &&
    d.day ≤ daysInMonth d.year d.month

/-- Days before the first of January of a year, from a fixed origin. -/
def daysBeforeYear (year : Nat) : Nat :=
  let y := year - 1
  y * 365 + y / 4 - y / 100 + y / 400

/-- The number of the day from a fixed origin. -/
def ordinal (d : Date) : Nat :=
  (List.range (d.month - 1)).foldl (fun days m => days + daysInMonth d.year (m + 1))
    (daysBeforeYear d.year) + d.day

def iso (d : Date) : String := padded 4 d.year ++ "-" ++ padded 2 d.month ++ "-" ++ padded 2 d.day

/-- The fields of the constructor notation. -/
def fields (d : Date) : List String := [decimal d.year, decimal d.month, decimal d.day]

def constructorText (d : Date) : String := "datetime.date(" ++ ", ".intercalate d.fields ++ ")"

end Date

namespace Time

def isValid (t : Time) : Bool := t.hour < 24 && t.minute < 60 && t.second < 60 && t.micro < 1000000

/-- Microseconds since midnight. -/
def micros (t : Time) : Nat := ((t.hour * 60 + t.minute) * 60 + t.second) * 1000000 + t.micro

def iso (t : Time) : String :=
  padded 2 t.hour ++ ":" ++ padded 2 t.minute ++ ":" ++ padded 2 t.second ++
    (if t.micro = 0 then "" else "." ++ padded 6 t.micro)

/-- The fields of the constructor notation; seconds and microseconds are left out where
nothing but zeros would follow. -/
def fields (t : Time) : List String :=
  [decimal t.hour, decimal t.minute] ++
    (if t.micro ≠ 0 then [decimal t.second, decimal t.micro]
     else if t.second ≠ 0 then [decimal t.second] else [])

def constructorText (t : Time) : String := "datetime.time(" ++ ", ".intercalate t.fields ++ ")"

end Time

/-- Microseconds in a second. -/
def microsPerSecond : Nat := 1000000

/-- Seconds in a day. -/
def secondsPerDay : Nat := 86400

/-- An offset from universal time as a signed clock text. Seconds are shown where they are
not zero, and so is their fraction. -/
def offsetText (micros : Int) : String :=
  let fraction := micros.natAbs % microsPerSecond
  let n := micros.natAbs / microsPerSecond
  (if micros < 0 then "-" else "+") ++ padded 2 (n / 3600) ++ ":" ++ padded 2 (n / 60 % 60) ++
    (if n % 60 = 0 && fraction = 0 then "" else ":" ++ padded 2 (n % 60)) ++
    (if fraction = 0 then "" else "." ++ padded 6 fraction)

/-- The constructor notation of an offset: whole days, then the seconds of a day and their
fraction, all that are not zero. -/
def offsetNotation (micros : Int) : String :=
  if micros = 0 then "datetime.timezone.utc"
  else
    let seconds := micros.fdiv microsPerSecond
    let parts := [("days", seconds.fdiv secondsPerDay), ("seconds", seconds.fmod secondsPerDay),
      ("microseconds", micros.fmod microsPerSecond)]
    "datetime.timezone(datetime.timedelta(" ++
      ", ".intercalate ((parts.filter (·.2 ≠ 0)).map fun e => e.1 ++ "=" ++ toString e.2) ++ "))"

namespace DateTime

def isoWith (between : String) (t : DateTime) : String :=
  t.date.iso ++ between ++ t.time.iso ++ (t.offset.map offsetText).getD ""

def constructorText (t : DateTime) : String :=
  "datetime.datetime(" ++ ", ".intercalate
    (t.date.fields ++ t.time.fields ++
      (t.offset.map fun o => ["tzinfo=" ++ offsetNotation o]).getD []) ++ ")"

/-- Microseconds from a fixed origin, at universal time if the offset is known. -/
def instant (t : DateTime) : Int :=
  ((t.date.ordinal * secondsPerDay * microsPerSecond + t.time.micros : Nat) : Int) -
    t.offset.getD 0

end DateTime

end ClientForge
