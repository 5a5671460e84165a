import ClientForge.Number.Shortest
import ClientForge.Ordered
import ClientForge.Text.Blank
import ClientForge.Text.CodePoint
import ClientForge.Text.Hex
import ClientForge.Value.Basic

/-!
# Canonical JSON

The text from which build hashes are taken. Members of an object stand in the order
of their names, so that two descriptions of one thing have one text. The text is
plain ASCII: every other character is escaped by its UTF-16 units, and so is half of a
surrogate pair that stands by itself. Specification
values have a JSON form unless they hold a date, bytes or a set, or a mapping whose
keys cannot be put in order.
-/

namespace ClientForge

open ClientForge.Number

/-- A JSON document. The members of an object are listed in the order of printing. -/
inductive Json
  | null
  | bool (b : Bool)
  | int (n : Int)
  | float (x : Binary64)
  | str (s : String)
  | arr (items : List Json)
  | obj (members : List (String × Json))
  deriving Inhabited

namespace Json

/-- The escape of one UTF-16 unit. -/
def unitEscape (n : Nat) : List Char := '\x5c' :: 'u' :: Text.hexFixed 4 n

/-- The UTF-16 units of a code point. -/
def units (n : Nat) : List Nat :=
  if n < 0x10000 || Text.noCode ≤ n then [n]
  else [0xD800 + (n - 0x10000) / 0x400, 0xDC00 + (n - 0x10000) % 0x400]

/-- One unit inside a string. -/
def escapeUnit (n : Nat) : List Char :=
  if n == 0x22 then ['\x5c', '\x22']
  else if n == 0x5c then ['\x5c', '\x5c']
  else if n == 10 then ['\x5c', 'n']
  else if n == 13 then ['\x5c', 'r']
  else if n == 9 then ['\x5c', 't']
  else if n == 8 then ['\x5c', 'b']
  else if n == 12 then ['\x5c', 'f']
  else if 32 ≤ n && n ≤ 126 then [Char.ofNat n]
  else if n < 0x10000 then unitEscape n
  else [Text.mark]

/-- The UTF-16 units of a text. -/
def textUnits (s : String) : List Nat := (Text.codes s.toList).flatMap units

/-- A string between its quotes. -/
def quoted (s : String) : List Char := '\x22' :: ((textUnits s).flatMap escapeUnit ++ ['\x22'])

/-- A floating-point number; the three special values have words of their own. -/
def floatText : Binary64 → String
  | .nan => "NaN"
  | .infinite negative => if negative then "-Infinity" else "Infinity"
  | x => Shortest.text x

mutual

/-- The characters of a document. -/
def chars : Json → List Char
  | .null => ['n', 'u', 'l', 'l']
  | .bool b => if b then ['t', 'r', 'u', 'e'] else ['f', 'a', 'l', 's', 'e']
  | .int n => (toString n).toList
  | .float x => (floatText x).toList
  | .str s => quoted s
  | .arr items => '[' :: (Text.joinWith [',', ' '] (itemChars items) ++ [']'])
  | .obj members => '\x7b' :: (Text.joinWith [',', ' '] (memberChars members) ++ ['\x7d'])

def itemChars : List Json → List (List Char)
  | [] => []
  | item :: rest => chars item :: itemChars rest

def memberChars : List (String × Json) → List (List Char)
  | [] => []
  | member :: rest => oneMember member :: memberChars rest

def oneMember : String × Json → List Char
  | (name, item) => quoted name ++ ':' :: ' ' :: chars item

end

/-- The text of a document. -/
def text (j : Json) : String := String.ofList j.chars

/-- A string, or null. -/
def ofText? : Option String → Json
  | some s => .str s
  | none => .null

/-- The name under which a scalar key is printed. -/
def keyName? : Value → Option String
  | .str s => some s
  | .null => some "null"
  | .bool b => some (if b then "true" else "false")
  | .int n => some (toString n)
  | .float x => some (floatText x)
  | _ => none

/-- Members in the order of their keys: texts by code points, numbers by size. A
single key needs no order; other keys have none. -/
def orderMembers? (members : List (Value × Json)) : Option (List (Value × Json)) :=
  if members.length ≤ 1 then some members
  else if members.all fun m => m.1.text?.isSome then
    some (sortBy
      (fun a b => Text.codeLess (a.1.text?.getD "").toList (b.1.text?.getD "").toList) members)
  else if members.all fun m => m.1.number?.isSome then
    some (sortBy
      (fun a b =>
        match a.1.number?, b.1.number? with
        | some p, some q => p.lt q
        | _, _ => false)
      members)
  else none

/-- Members with their keys in order and printed as names. -/
def ofMembers? (members : List (Value × Json)) : Option Json := do
  let ordered ← orderMembers? members
  let named ← ordered.mapM fun m => (keyName? m.1).map (·, m.2)
  pure (.obj named)

mutual

/-- The JSON form of a specification value. -/
def ofValue? : Value → Option Json
  | .null => some .null
  | .bool b => some (.bool b)
  | .int n => some (.int n)
  | .float x => some (.float x)
  | .str s => some (.str s)
  | .list items => (ofValues? items).map .arr
  | .tuple items => (ofValues? items).map .arr
  | .map entries => (ofEntries? entries).bind ofMembers?
  | .set _ => none
  | .date _ => none
  | .dateTime _ => none
  | .time _ => none
  | .bytes _ => none

def ofValues? : List Value → Option (List Json)
  | [] => some []
  | v :: rest => do
    let j ← ofValue? v
    let more ← ofValues? rest
    pure (j :: more)

def ofEntries? : List (Value × Value) → Option (List (Value × Json))
  | [] => some []
  | e :: rest => do
    let j ← ofEntry? e
    let more ← ofEntries? rest
    pure (j :: more)

def ofEntry? : Value × Value → Option (Value × Json)
  | (k, v) => (ofValue? v).map (k, ·)

end

end Json

end ClientForge
