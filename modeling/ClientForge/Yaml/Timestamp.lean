import ClientForge.Calendar
import ClientForge.Number.Reading
import ClientForge.Yaml.Input

/-!
# Timestamps

A timestamp is a day, or a day with a time, a fraction of a second and a zone. Reading
one finds its parts; only then it turns out whether such a day and time exist.
-/

namespace ClientForge.Yaml

open ClientForge.Text (isAsciiDigit)

/-- The parts of a time: its numbers, the digits of the fraction, and the seconds that
the zone is ahead. -/
structure ClockParts where
  hour : Nat
  minute : Nat
  second : Nat
  fraction : List Char
  zone : Option Int
  deriving DecidableEq, Repr, Inhabited

/-- The parts of a timestamp. -/
structure TimestampParts where
  date : Date
  /-- Whether month and day have two digits each. -/
  isFull : Bool
  clock : Option ClockParts
  deriving DecidableEq, Repr, Inhabited

namespace Timestamp

/-- Exactly so many digits. -/
def digits? (width : Nat) (cs : List Char) : Option (Nat × List Char) :=
  let ds := cs.take width
  if ds.length = width && ds.all isAsciiDigit then some (Number.decimalValue ds, cs.drop width)
  else none

/-- One digit or two: their value, whether there are two, and what follows. -/
def upToTwo? (cs : List Char) : Option (Nat × Bool × List Char) :=
  match digits? 2 cs with
  | some (n, rest) => some (n, true, rest)
  | none => (digits? 1 cs).map fun r => (r.1, false, r.2)

def expect? (c : Char) : List Char → Option (List Char)
  | d :: rest => if d = c then some rest else none
  | [] => none

/-- The zone up to the end of the text. -/
def zone? (cs : List Char) : Option (Option Int) :=
  match cs.dropWhile isBlank with
  | [] => if cs.isEmpty then some none else none
  | ['Z'] => some (some 0)
  | sign :: rest =>
    if sign == '+' || sign == '-' then do
      let (hours, _, rest) ← upToTwo? rest
      let minutes ← if rest.isEmpty then some 0 else do
        let (minutes, rest) ← digits? 2 (← expect? ':' rest)
        if rest.isEmpty then some minutes else none
      let seconds : Int := hours * 3600 + minutes * 60
      pure (some (if sign == '-' then -seconds else seconds))
    else none

/-- The time up to the end of the text. -/
def clock? (cs : List Char) : Option ClockParts := do
  let (hour, _, cs) ← upToTwo? cs
  let (minute, cs) ← digits? 2 (← expect? ':' cs)
  let (second, cs) ← digits? 2 (← expect? ':' cs)
  let (fraction, cs) := match cs with
    | '.' :: rest => rest.span isAsciiDigit
    | _ => ([], cs)
  let zone ← zone? cs
  pure ⟨hour, minute, second, fraction, zone⟩

/-- What stands between a day and a time: one letter, or blanks. -/
def afterDay? (cs : List Char) : Option (List Char) :=
  match cs with
  | 'T' :: rest => some rest
  | 't' :: rest => some rest
  | _ => if cs.head?.any isBlank then some (cs.dropWhile isBlank) else none

/-- The parts of a timestamp. -/
def parts? (cs : List Char) : Option TimestampParts := do
  let (year, cs) ← digits? 4 cs
  let (month, monthFull, cs) ← upToTwo? (← expect? '-' cs)
  let (day, dayFull, cs) ← upToTwo? (← expect? '-' cs)
  let clock ← if cs.isEmpty then some none else (afterDay? cs).bind fun cs => (clock? cs).map some
  pure ⟨⟨year, month, day⟩, monthFull && dayFull, clock⟩

/-- A fraction of a second in microseconds; further digits are dropped. -/
def micros (fraction : List Char) : Nat :=
  let six := fraction.take 6
  Number.decimalValue (six ++ List.replicate (6 - six.length) '0')

/-- The day, or the day with its time. Days and times that do not exist have no value,
nor do zones a day or more away. -/
def value (p : TimestampParts) : Except Fault Value :=
  match p.clock with
  | none => if p.date.isValid then .ok (.date p.date) else .error (.misuse .badValue)
  | some k =>
    let time : Time := ⟨k.hour, k.minute, k.second, micros k.fraction⟩
    if p.date.isValid && time.isValid && k.zone.all (·.natAbs < secondsPerDay) then
      .ok (.dateTime ⟨p.date, time, k.zone.map (· * microsPerSecond)⟩)
    else .error (.misuse .badValue)

end Timestamp

end ClientForge.Yaml
