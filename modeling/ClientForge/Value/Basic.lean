import ClientForge.Calendar
import ClientForge.Number.Binary64

/-!
# Specification values

The data of a specification document before it has been given a meaning: scalars,
dates, sequences and mappings with arbitrary keys in document order. A mapping holds
no two equal keys, where numbers and truth values are equal if they denote the same
number. Writing to a mapping replaces the value under an equal key and leaves that
key and its place alone; a new key goes to the end.
-/

namespace ClientForge

open ClientForge.Number

/-- A value of a specification document or of a settings table. -/
inductive Value
  | null
  | bool (b : Bool)
  | int (n : Int)
  | float (x : Binary64)
  | str (s : String)
  | list (items : List Value)
  | tuple (items : List Value)
  | map (entries : List (Value × Value))
  | set (items : List Value)
  | date (d : Date)
  | dateTime (t : DateTime)
  | time (t : Time)
  | bytes (bs : List UInt8)
  deriving Inhabited, Repr

namespace Value

/-- The number that a numeric value denotes; truth values count as one and zero. -/
def number? : Value → Option Binary64.Place
  | .bool b => some (.ofInt (if b then 1 else 0))
  | .int n => some (.ofInt n)
  | .float x => some x.place
  | _ => none

/-- Whether a value denotes the number at a place. -/
def sameNumber (p : Binary64.Place) (v : Value) : Bool :=
  match v.number? with
  | some q => p.eq q
  | none => false

mutual

/-- Equality of values: numbers by what they denote, sequences item by item, mappings
and sets without regard to order, everything else as written. -/
def same : Value → Value → Bool
  | .null, .null => true
  | .str s, .str t => s == t
  | .list xs, .list ys => sameAll xs ys
  | .tuple xs, .tuple ys => sameAll xs ys
  | .map es, .map fs => es.length == fs.length && sameEntries es fs
  | .set xs, .set ys => xs.length == ys.length && sameMembers xs ys
  | .date d, .date e => d == e
  | .dateTime t, .dateTime u =>
    t.offset.isSome == u.offset.isSome && t.instant == u.instant
  | .time t, .time u => t == u
  | .bytes bs, .bytes cs => bs == cs
  | .bool b, v => sameNumber (.ofInt (if b then 1 else 0)) v
  | .int n, v => sameNumber (.ofInt n) v
  | .float x, v => sameNumber x.place v
  | _, _ => false
termination_by structural v => v

def sameAll : List Value → List Value → Bool
  | [], [] => true
  | x :: xs, y :: ys => same x y && sameAll xs ys
  | _, _ => false
termination_by structural vs => vs

/-- Whether every entry has an equal one in the other mapping. -/
def sameEntries : List (Value × Value) → List (Value × Value) → Bool
  | [], _ => true
  | e :: rest, fs => hasEntry e fs && sameEntries rest fs
termination_by structural es => es

/-- Whether some entry has the same key and the same value. -/
def hasEntry : Value × Value → List (Value × Value) → Bool
  | (k, v), fs => fs.any fun f => same k f.1 && same v f.2
termination_by structural e => e

def sameMembers : List Value → List Value → Bool
  | [], _ => true
  | x :: rest, ys => ys.any (fun y => same x y) && sameMembers rest ys
termination_by structural xs => xs

end

/-- Entries of a mapping in document order. -/
abbrev Entries := List (Value × Value)

/-- The value under a key. -/
def Entries.get? (key : Value) (es : Entries) : Option Value :=
  (es.find? fun e => same e.1 key).map (·.2)

/-- Write a value under a key: in the place of an equal key, or at the end. -/
def Entries.put (key value : Value) : Entries → Entries
  | [] => [(key, value)]
  | (k, v) :: rest => if same k key then (k, value) :: rest else (k, v) :: put key value rest

/-- The entries written one after another. -/
def Entries.ofList (es : List (Value × Value)) : Entries :=
  es.foldl (fun acc e => acc.put e.1 e.2) []

/-- The value under a text key. -/
def Entries.text? (key : String) (es : Entries) : Option Value := es.get? (.str key)

def Entries.hasText (key : String) (es : Entries) : Bool := (es.text? key).isSome

/-- The value under a text key of a mapping; other values have no keys. -/
def field? (key : String) : Value → Option Value
  | .map es => Entries.text? key es
  | _ => none

/-- The value under a text key, null if there is none. -/
def field (key : String) (v : Value) : Value := (v.field? key).getD .null

def isMap : Value → Bool
  | .map _ => true
  | _ => false

def isNull : Value → Bool
  | .null => true
  | _ => false

def text? : Value → Option String
  | .str s => some s
  | _ => none

/-- Whether a value counts as true: null, false, zero and everything empty does not. -/
def isTruthy : Value → Bool
  | .null => false
  | .bool b => b
  | .int n => n != 0
  | .float x => !x.isZero
  | .str s => s != ""
  | .list xs => !xs.isEmpty
  | .tuple xs => !xs.isEmpty
  | .map es => !es.isEmpty
  | .set xs => !xs.isEmpty
  | .bytes bs => !bs.isEmpty
  | .date _ => true
  | .dateTime _ => true
  | .time _ => true

mutual

/-- Whether a value may be a key: sequences, mappings and sets may not. -/
def isKey : Value → Bool
  | .list _ => false
  | .map _ => false
  | .set _ => false
  | .tuple xs => areKeys xs
  | _ => true

def areKeys : List Value → Bool
  | [] => true
  | x :: xs => isKey x && areKeys xs

end

/-- The first value that counts as true, or the second. -/
def orElse (v w : Value) : Value := if v.isTruthy then v else w

end Value

end ClientForge
