import ClientForge.Number.Reading
import ClientForge.Number.Shortest
import ClientForge.Text.Quoted
import ClientForge.Value.Basic

/-!
# Values in texts

A value that stands where a text is expected, such as a title or a description, is
written out: a string as itself, a date in ISO form, a date-time with a blank between
its halves. Inside a sequence or a mapping, and where a message quotes a value, a
string is quoted and dates appear in constructor notation. All other values look the
same in both places. Integers with too many digits are not written out, nor is anything
that holds one.
-/

namespace ClientForge.Value

open ClientForge.Number

/-- Items between brackets, separated by a comma and a blank. -/
private def bracketed (opening closing : String) (items : List String) : String :=
  opening ++ ", ".intercalate items ++ closing

mutual

/-- A value as a message quotes it. -/
def quoted : Value → String
  | .null => "None"
  | .bool b => if b then "True" else "False"
  | .int n => toString n
  | .float x => Shortest.text x
  | .str s => Text.Quoted.text s
  | .list xs => bracketed "[" "]" (quotedAll xs)
  | .tuple xs =>
    match quotedAll xs with
    | [item] => "(" ++ item ++ ",)"
    | items => bracketed "(" ")" items
  | .map es => bracketed "\x7b" "\x7d" (quotedEntries es)
  | .set xs =>
    match quotedAll xs with
    | [] => "set()"
    | items => bracketed "\x7b" "\x7d" items
  | .date d => d.constructorText
  | .dateTime t => t.constructorText
  | .time t => t.constructorText
  | .bytes bs => Text.Quoted.bytes bs

def quotedAll : List Value → List String
  | [] => []
  | x :: xs => quoted x :: quotedAll xs

def quotedEntries : List (Value × Value) → List String
  | [] => []
  | e :: rest => quotedEntry e :: quotedEntries rest

def quotedEntry : Value × Value → String
  | (k, v) => quoted k ++ ": " ++ quoted v

end

/-- A value as text of its own. -/
def text : Value → String
  | .str s => s
  | .date d => d.iso
  | .dateTime t => t.isoWith " "
  | .time t => t.iso
  | v => v.quoted

/-- The least integer that is not written out. -/
def writingBound : Nat := Binary64.tenTo maxDecimalDigits

mutual

/-- Whether a value can be written out. -/
def isWritable : Value → Bool
  | .int n => n.natAbs < writingBound
  | .list xs => areWritable xs
  | .tuple xs => areWritable xs
  | .map es => haveWritable es
  | .set xs => areWritable xs
  | _ => true

def areWritable : List Value → Bool
  | [] => true
  | x :: xs => isWritable x && areWritable xs

/-- Whether keys and values of all entries can be written out. -/
def haveWritable : List (Value × Value) → Bool
  | [] => true
  | e :: rest => isWritableEntry e && haveWritable rest

def isWritableEntry : Value × Value → Bool
  | (k, v) => isWritable k && isWritable v

end

@[simp] theorem text_str (s : String) : text (.str s) = s := rfl

end ClientForge.Value
