import ClientForge.Text.CodePoint
import ClientForge.Text.Hex
import ClientForge.Text.Printable

/-!
# Display quoting

A text quoted in a message stands between single quotes, or between double quotes
when it holds a single quote and no double quote. The enclosing quote and the
backslash are escaped, line feed, carriage return and tab have short escapes, and
every other unprintable character, and half of a surrogate pair, is shown by its code in
two, four or eight hexadecimal digits, whichever is the least that holds it. Byte strings follow the
same rule and show every byte outside printable ASCII by its code.
-/

namespace ClientForge.Text.Quoted

/-- The quote that encloses a text. -/
def enclosing (cs : List Char) : Char :=
  if cs.contains '\x27' && !cs.contains '\x22' then '\x22' else '\x27'

/-- A backslash, a letter and a code point in the least sufficient width. -/
def codeEscape (n : Nat) : List Char :=
  if n < 0x100 then '\x5c' :: 'x' :: hexFixed 2 n
  else if n < 0x10000 then '\x5c' :: 'u' :: hexFixed 4 n
  else '\x5c' :: 'U' :: hexFixed 8 n

/-- One code point inside the given quotes. -/
def escapeCode (quote : Char) (n : Nat) : List Char :=
  let c := Char.ofNat n
  if !n.isValidChar then codeEscape n
  else if c == quote || c == '\x5c' then ['\x5c', c]
  else if c == '\n' then ['\x5c', 'n']
  else if c == '\r' then ['\x5c', 'r']
  else if c == '\t' then ['\x5c', 't']
  else if isPrintable c then [c]
  else codeEscape n

/-- A text between quotes. -/
def text (s : String) : String :=
  let cs := s.toList
  let quote := enclosing cs
  String.ofList (quote :: ((codes cs).flatMap (escapeCode quote) ++ [quote]))

/-- A text in which halves of surrogate pairs are shown by their codes, so that it can be
written out. -/
def shown (s : String) : String :=
  String.ofList ((codes s.toList).flatMap fun n =>
    if n.isValidChar then [Char.ofNat n] else codeEscape n)

/-- One byte inside the given quotes. -/
def escapeByte (quote : Char) (b : UInt8) : List Char :=
  let c := Char.ofNat b.toNat
  if c == quote || c == '\x5c' then ['\x5c', c]
  else if c == '\n' then ['\x5c', 'n']
  else if c == '\r' then ['\x5c', 'r']
  else if c == '\t' then ['\x5c', 't']
  else if 32 ≤ b.toNat && b.toNat < 127 then [c]
  else codeEscape b.toNat

/-- A byte string between quotes, marked by a leading `b`. -/
def bytes (bs : List UInt8) : String :=
  let quote := enclosing (bs.map fun b => Char.ofNat b.toNat)
  String.ofList ('b' :: quote :: (bs.flatMap (escapeByte quote) ++ [quote]))

end ClientForge.Text.Quoted
