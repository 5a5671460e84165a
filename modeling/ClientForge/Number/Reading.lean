import ClientForge.Number.Binary64
import ClientForge.Text.Blank
import ClientForge.Text.Hex

/-!
# Reading numerals

Decimal floating-point numerals and integer numerals to the bases two, eight, ten
and sixteen, as they stand in documents and settings. Blanks around a numeral and
one sign are allowed, a numeral to another base may carry its own marker, and an
underscore may stand between two digits.
-/

namespace ClientForge.Number

open ClientForge.Text

/-- Blanks that may stand around a numeral: all but the four
information separators. -/
def isNumeralBlank (c : Char) : Bool := isBlank c && !(0x1c ≤ c.toNat && c.toNat ≤ 0x1f)

/-- A numeral without the blanks around it. -/
def bare (cs : List Char) : List Char :=
  ((cs.dropWhile isNumeralBlank).reverse.dropWhile isNumeralBlank).reverse

/-- Digits with single underscores between them, the underscores dropped; empty if
that form is broken. -/
def plainDigits? (isDigit : Char → Bool) : List Char → Option (List Char)
  | [] => none
  | [c] => if isDigit c then some [c] else none
  | c :: '_' :: d :: rest =>
    if isDigit c && isDigit d then (plainDigits? isDigit (d :: rest)).map (c :: ·) else none
  | c :: rest => if isDigit c then (plainDigits? isDigit rest).map (c :: ·) else none

/-- A sign and the text after it. -/
def takeSign : List Char → Bool × List Char
  | '-' :: rest => (true, rest)
  | '+' :: rest => (false, rest)
  | cs => (false, cs)

/-- The most decimal digits that an integer may have where it is read or written. -/
def maxDecimalDigits : Nat := 4300

/-- The letters that may mark a base after a leading zero. -/
private def baseMarks (base : Nat) : List Char :=
  if base = 2 then ['b', 'B']
  else if base = 8 then ['o', 'O']
  else if base = 16 then ['x', 'X']
  else []

/-- The integer that a numeral to a base denotes. -/
def integer? (base : Nat) (cs : List Char) : Option Int := do
  let (negative, body) := takeSign (bare cs)
  let body := match body with
    | '0' :: mark :: rest =>
      if (baseMarks base).contains mark then
        (match rest with
        | '_' :: more => more
        | more => more)
      else body
    | _ => body
  let digits ← plainDigits? (fun c => (hexValue? c).any (· < base)) body
  if base = 10 && maxDecimalDigits < digits.length then none
  let n ← numeral? base digits
  pure (if negative then -(n : Int) else n)

/-- Read decimal digits into a number. -/
def decimalValue (cs : List Char) : Nat :=
  cs.foldl (fun n c => n * 10 + (c.toNat - 48)) 0

/-- The part of a numeral from an exponent mark on, as a power of ten. -/
private def exponent? : List Char → Option Int
  | [] => some 0
  | mark :: rest =>
    if mark == 'e' || mark == 'E' then do
      let (negative, body) := takeSign rest
      let digits ← plainDigits? isAsciiDigit body
      let n := decimalValue digits
      pure (if negative then -(n : Int) else n)
    else none

/-- The floating-point number that a decimal numeral denotes. -/
def floating? (cs : List Char) : Option Binary64 := do
  let (negative, body) := takeSign (bare cs)
  let word := String.ofList (lowerWord body)
  if word == "inf" || word == "infinity" then return .infinite negative
  if word == "nan" then return .nan
  let isPart := fun c => isAsciiDigit c || c == '_'
  let whole := body.takeWhile isPart
  let rest := body.dropWhile isPart
  let (fraction, rest) := match rest with
    | '.' :: more => (more.takeWhile isPart, more.dropWhile isPart)
    | _ => ([], rest)
  let wholeDigits ← if whole.isEmpty then some [] else plainDigits? isAsciiDigit whole
  let fractionDigits ← if fraction.isEmpty then some [] else plainDigits? isAsciiDigit fraction
  if wholeDigits.isEmpty && fractionDigits.isEmpty then none
  let e ← exponent? rest
  pure (.ofDecimal negative (decimalValue (wholeDigits ++ fractionDigits))
    (e - fractionDigits.length))
where
  lowerWord (cs : List Char) : List Char := cs.map Char.toLower

end ClientForge.Number
