import ClientForge.Number.Binary64
import ClientForge.Text.Hex

/-!
# Shortest decimal text

A floating-point number is written with the fewest digits that read back as the
same number, and among decimals of that length with the one nearest to it. The
search goes through the decimal grids from coarse to fine and tests, in exact
integer arithmetic, the two neighbours of the number on each grid against the
interval of reals that round to it. Numbers from 10⁻⁴ to below 10¹⁶ are written
positionally, with a fraction even if it is zero; all others with an exponent of
at least two digits.
-/

namespace ClientForge.Number.Shortest

open Binary64 (twoTo tenTo)

/-- A decimal: an integer times a power of ten. -/
structure Decimal where
  digits : Nat
  exponent : Int
  deriving DecidableEq, Repr

/-- Four times the number, and the ends of the interval that rounds to it, over a
common denominator. The interval is closed when the integer is even. -/
structure Interval where
  value : Nat
  low : Nat
  high : Nat
  den : Nat
  closed : Bool

/-- The interval of reals that round to a positive finite number. The lower half is
narrower at a power of two, where the spacing of the numbers below halves. -/
def Interval.of (mantissa : Nat) (exponent : Int) : Interval :=
  let narrow := mantissa = twoTo 52 ∧ Binary64.minExponent < exponent
  let value := 4 * mantissa
  let low := if narrow then value - 1 else value - 2
  let high := value + 2
  let up := twoTo exponent.toNat
  let down := twoTo (-exponent).toNat
  ⟨value * up, low * up, high * up, 4 * down, mantissa % 2 = 0⟩

/-- Whether `n · 10^k` lies in the interval. -/
def Interval.holds (i : Interval) (n : Nat) (k : Int) : Bool :=
  let left := n * tenTo k.toNat * i.den
  let scale := tenTo (-k).toNat
  if i.closed then i.low * scale ≤ left && left ≤ i.high * scale
  else i.low * scale < left && left < i.high * scale

/-- The number divided by `10^k`, as a numerator and a denominator. -/
def Interval.onGrid (i : Interval) (k : Int) : Nat × Nat :=
  (i.value * tenTo (-k).toNat, i.den * tenTo k.toNat)

/-- The position of the leading decimal digit: the greatest `p` with `10^p` at most
the number. `p` is the candidate; it is lowered while it is too large. -/
def leadingDigit (num den : Nat) : Nat → Int → Int
  | 0, p => p
  | fuel + 1, p =>
    if tenTo p.toNat * den ≤ num * tenTo (-p).toNat then p else leadingDigit num den fuel (p - 1)

/-- The neighbour on the grid `10^k` that reads back; of two, the nearer, and on a tie
the even one. -/
def Interval.neighbour? (i : Interval) (k : Int) : Option Nat :=
  let (num, den) := i.onGrid k
  let below := num / den
  let rest := num % den
  match below ≠ 0 && i.holds below k, i.holds (below + 1) k with
  | true, true =>
    if 2 * rest < den || (2 * rest == den && below % 2 == 0) then some below else some (below + 1)
  | true, false => some below
  | false, true => some (below + 1)
  | false, false => none

/-- The first grid of at most `fuel` grids, from coarse to fine, that holds a decimal
of the interval. -/
def search (i : Interval) : Nat → Int → Decimal
  | 0, k => ⟨(i.onGrid k).1 / (i.onGrid k).2, k⟩
  | fuel + 1, k =>
    match i.neighbour? k with
    | some n => ⟨n, k⟩
    | none => search i fuel (k - 1)

/-- The decimal of fewest digits that rounds to a positive finite number, and the
nearest of these. -/
def decimal (mantissa : Nat) (exponent : Int) : Decimal :=
  let i := Interval.of mantissa exponent
  let bits : Int := (mantissa.log2 : Int) + exponent
  let start : Int := bits * 30103 / 100000 + 1
  let p := leadingDigit i.value i.den 4 start
  search i 18 p

/-- The digits of a positive decimal without trailing zeros, and the position of the
point counted from before the first digit. -/
def Decimal.significant (d : Decimal) : List Char × Int :=
  let cs := (toString d.digits).toList
  ((cs.reverse.dropWhile (· == '0')).reverse, (cs.length : Int) + d.exponent)

/-- Positional notation, with at least one digit on each side of the point. -/
def positional (digits : List Char) (point : Int) : List Char :=
  let n := digits.length
  if point ≤ 0 then '0' :: '.' :: (List.replicate (-point).toNat '0' ++ digits)
  else if (n : Int) ≤ point then
    digits ++ List.replicate (point.toNat - n) '0' ++ ['.', '0']
  else digits.take point.toNat ++ '.' :: digits.drop point.toNat

/-- Scientific notation: one digit before the point, a signed exponent of at least two
digits. -/
def scientific (digits : List Char) (point : Int) : List Char :=
  let e := point - 1
  let fraction := match digits with
    | [] => ['0']
    | [d] => [d]
    | d :: rest => d :: '.' :: rest
  fraction ++ 'e' :: (if e < 0 then '-' else '+') :: (Text.padded 2 e.natAbs).toList

/-- The text of a floating-point number. -/
def text : Binary64 → String
  | .nan => "nan"
  | .infinite negative => if negative then "-inf" else "inf"
  | .finite negative mantissa exponent =>
    let sign := if negative then ['-'] else []
    if mantissa = 0 then String.ofList (sign ++ ['0', '.', '0'])
    else
      let (digits, point) := (decimal mantissa exponent).significant
      String.ofList (sign ++
        if -4 < point && point ≤ 16 then positional digits point else scientific digits point)

end ClientForge.Number.Shortest
