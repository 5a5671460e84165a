import ClientForge.Text.Digit
import ClientForge.Yaml.Kind

/-!
# Values of scalars

The value of a scalar of each kind. A tag can give a scalar a kind whose form its text
does not have; then it has no value.
-/

namespace ClientForge.Yaml

open ClientForge.Number
open ClientForge.Text (isAsciiDigit)

namespace Scalar

/-- Whether a text starts with another one. -/
def startsWith (start cs : List Char) : Bool := start.isPrefixOf cs

/-- A numeral to a base, or a fault if it is none. -/
def integerOf (base : Nat) (cs : List Char) : Except Fault Int :=
  match integer? base (Text.plainDigits cs) with
  | some n => .ok n
  | none => .error (.misuse .badValue)

/-- A floating-point numeral, or a fault if it is none. -/
def floatOf (cs : List Char) : Except Fault Binary64 :=
  match floating? (Text.plainDigits cs) with
  | some x => .ok x
  | none => .error (.misuse .badValue)

/-- A sign and the rest of a text, which may not be empty. -/
def signed (cs : List Char) : Except Fault (Bool × List Char) :=
  if cs.isEmpty then .error (.misuse .outOfRange) else .ok (takeSign cs)

/-- The integer that the text of a scalar denotes. -/
def integer (cs : List Char) : Except Fault Int := do
  let (negative, body) ← signed (cs.filter (· != '_'))
  let n ←
    if body.isEmpty then throw (.misuse .outOfRange)
    else if startsWith ['0', 'b'] body then integerOf 2 (body.drop 2)
    else if startsWith ['0', 'x'] body then integerOf 16 (body.drop 2)
    else if startsWith ['0'] body then integerOf 8 body
    else if body.contains ':' then do
      let parts ← (Text.splitAt ':' body).mapM (integerOf 10)
      pure (parts.foldl (fun n part => n * 60 + part) 0)
    else integerOf 10 body
  pure (if negative then -n else n)

/-- The sum of places to the base sixty, the last one first, each place rounded before
it is added. A place value that no number has is a fault. -/
def sexagesimal : List Binary64 → Nat → Binary64 → Except Fault Binary64
  | [], _, sum => .ok sum
  | part :: rest, base, sum =>
    match Binary64.ofInt base with
    | .infinite _ => .error (.misuse .tooLarge)
    | b => sexagesimal rest (base * 60) (sum.add (part.mul b))

/-- A floating-point numeral as it is read: without underscores, in small letters. -/
def plainForm (cs : List Char) : List Char := (cs.filter (· != '_')).map Char.toLower

/-- The word for what is not a number. -/
def nanWord : List Char := ".nan".toList

/-- Whether a text is the word for what is not a number, rather than a numeral for it. -/
def isNanWord (cs : List Char) : Bool := (takeSign (plainForm cs)).2 == nanWord

/-- The floating-point number that the text of a scalar denotes. -/
def floating (cs : List Char) : Except Fault Binary64 := do
  let (negative, body) ← signed (plainForm cs)
  let x ←
    if body == ".inf".toList then pure (.infinite false)
    else if body == nanWord then pure .nan
    else if body.contains ':' then do
      let parts ← (Text.splitAt ':' body).mapM floatOf
      sexagesimal parts.reverse 1 (.zero false)
    else floatOf body
  pure (if negative then x.negate else x)

/-- The truth value that a word denotes, in any case of letters. -/
def truth (cs : List Char) : Except Fault Bool :=
  let word := String.ofList (cs.map Char.toLower)
  if ["yes", "true", "on"].contains word then .ok true
  else if ["no", "false", "off"].contains word then .ok false
  else .error (.misuse .unknownName)

/-- The day or time that the text of a scalar denotes. -/
def timestamp (cs : List Char) : Except Fault Value :=
  match Timestamp.parts? (Kind.withoutLineEnd cs) with
  | some p => Timestamp.value p
  | none => .error (.misuse .noSuchPart)

/-- The six bits of a digit to the base sixty-four. -/
def sixBits? (c : Char) : Option Nat :=
  if Text.isAsciiUpper c then some (c.toNat - 65)
  else if Text.isAsciiLower c then some (c.toNat - 71)
  else if isAsciiDigit c then some (c.toNat + 4)
  else if c == '+' then some 62
  else if c == '/' then some 63
  else none

/-- The bytes of digits to the base sixty-four, four digits for three bytes. Other
characters are skipped. Padding ends the text once it fills a group that has at least
two digits; a text that ends within a group otherwise is broken. The group is given by
the number of its digits, what its last digit leaves for the next byte, and the padding
right before. -/
def binaryFrom (digits left padding : Nat) : List Char → Option (List UInt8)
  | [] => if digits = 0 then some [] else none
  | c :: rest =>
    if c == '=' then
      if 2 ≤ digits then
        if 4 ≤ digits + padding + 1 then some [] else binaryFrom digits left (padding + 1) rest
      else binaryFrom digits left padding rest
    else
      match sixBits? c with
      | none => binaryFrom digits left padding rest
      | some n =>
        match digits with
        | 0 => binaryFrom 1 n 0 rest
        | 1 => (binaryFrom 2 (n % 16) 0 rest).map (UInt8.ofNat (left * 4 + n / 16) :: ·)
        | 2 => (binaryFrom 3 (n % 4) 0 rest).map (UInt8.ofNat (left * 16 + n / 4) :: ·)
        | _ => (binaryFrom 0 0 0 rest).map (UInt8.ofNat (left * 64 + n) :: ·)

/-- The bytes that the text of a scalar denotes. -/
def binary (cs : List Char) : Except Fault (List UInt8) :=
  match if cs.all (·.toNat < 128) then binaryFrom 0 0 0 cs else none with
  | some bytes => .ok bytes
  | none => .error .malformed

end Scalar

end ClientForge.Yaml
