/-!
# Binary floating-point numbers of 64 bits

A finite number is a sign, an integer below 2⁵³ and a power of two not under
2⁻¹⁰⁷⁴; zero keeps its sign. Every operation is the exact rational result rounded
to the nearest such number, ties going to the even integer, so nothing here rests
on the arithmetic of the machine.
-/

namespace ClientForge.Number

/-- A binary floating-point number. In a finite number the integer has 53 bits
unless the exponent is the least one. -/
inductive Binary64
  | nan
  | infinite (negative : Bool)
  | finite (negative : Bool) (mantissa : Nat) (exponent : Int)
  deriving DecidableEq, Repr, Inhabited

namespace Binary64

/-- A power of two. -/
def twoTo (k : Nat) : Nat := Nat.pow 2 k

/-- A power of ten. -/
def tenTo (k : Nat) : Nat := Nat.pow 10 k

/-- The least exponent of a finite number. -/
def minExponent : Int := -1074

/-- The greatest exponent of a finite number. -/
def maxExponent : Int := 971

def zero (negative : Bool) : Binary64 := .finite negative 0 minExponent

/-- `num / den` times two to the power `-e`, as a numerator and a denominator. -/
private def scaled (num den : Nat) (e : Int) : Nat × Nat :=
  if 0 ≤ e then (num, den * twoTo e.toNat) else (num * twoTo (-e).toNat, den)

/-- The nearest integer to a quotient; a tie goes to the even neighbour. -/
def roundHalfEven (num den : Nat) : Nat :=
  let q := num / den
  let r := num % den
  if 2 * r < den then q
  else if den < 2 * r then q + 1
  else if q % 2 = 0 then q else q + 1

/-- The number nearest to the quotient of two natural numbers, with a sign. -/
def ofRatio (negative : Bool) (num den : Nat) : Binary64 :=
  if num = 0 then zero negative
  else
    let size : Int := (num.log2 : Int) - (den.log2 : Int)
    let low := scaled num den (size - 53)
    let e := if low.1 / low.2 < twoTo 53 then size - 53 else size - 52
    let e := if e < minExponent then minExponent else e
    let (n, d) := scaled num den e
    let m := roundHalfEven n d
    let (m, e) := if m = twoTo 53 then (twoTo 52, e + 1) else (m, e)
    if maxExponent < e then .infinite negative else .finite negative m e

/-- The number nearest to `digits` times ten to the power `exponent`. Powers that
lie far outside the range are decided by their size alone. -/
def ofDecimal (negative : Bool) (digits : Nat) (exponent : Int) : Binary64 :=
  if digits = 0 then zero negative
  else
    let magnitude : Int := ((toString digits).length : Int) + exponent
    if 310 < magnitude then .infinite negative
    else if magnitude < -330 then zero negative
    else if 0 ≤ exponent then ofRatio negative (digits * tenTo exponent.toNat) 1
    else ofRatio negative digits (tenTo (-exponent).toNat)

/-- The number nearest to an integer. -/
def ofInt (n : Int) : Binary64 := ofRatio (n < 0) n.natAbs 1

/-- A finite number as a fraction with a positive denominator. -/
def fraction (negative : Bool) (mantissa : Nat) (exponent : Int) : Int × Nat :=
  let (n, d) := scaled mantissa 1 (-exponent)
  (if negative then -(n : Int) else n, d)

/-- The number with the other sign. -/
def negate : Binary64 → Binary64
  | nan => nan
  | infinite s => infinite (!s)
  | finite s m e => finite (!s) m e

def isZero : Binary64 → Bool
  | finite _ m _ => m == 0
  | _ => false

/-- The sum, rounded. Two zeros of unlike sign give the positive zero. -/
def add : Binary64 → Binary64 → Binary64
  | nan, _ => nan
  | _, nan => nan
  | infinite s, infinite t => if s = t then infinite s else nan
  | infinite s, _ => infinite s
  | _, infinite t => infinite t
  | finite s m e, finite t n f =>
    let (a, b) := fraction s m e
    let (c, d) := fraction t n f
    let num := a * d + c * b
    if num = 0 then zero (s && t) else ofRatio (num < 0) num.natAbs (b * d)

/-- The product, rounded. -/
def mul : Binary64 → Binary64 → Binary64
  | nan, _ => nan
  | _, nan => nan
  | infinite s, infinite t => infinite (s != t)
  | infinite s, finite t n _ => if n = 0 then nan else infinite (s != t)
  | finite s m _, infinite t => if m = 0 then nan else infinite (s != t)
  | finite s m e, finite t n f =>
    let (a, b) := fraction s m e
    let (c, d) := fraction t n f
    ofRatio (s != t) (a * c).natAbs (b * d)

/-- A number as a place in the extended order of the rationals: `none` for the
number that has none, an infinity by its sign, or a fraction. -/
inductive Place
  | unordered
  | below
  | at (num : Int) (den : Nat)
  | above
  deriving DecidableEq, Repr

def place : Binary64 → Place
  | nan => .unordered
  | infinite true => .below
  | infinite false => .above
  | finite s m e => .at (fraction s m e).1 (fraction s m e).2

namespace Place

def ofInt (n : Int) : Place := .at n 1

/-- Strictly smaller; nothing is smaller or greater than what has no place. -/
def lt : Place → Place → Bool
  | unordered, _ => false
  | _, unordered => false
  | below, below => false
  | below, _ => true
  | _, below => false
  | above, _ => false
  | _, above => true
  | .at a b, .at c d => a * d < c * b

/-- Numerically equal. What has no place equals nothing. -/
def eq : Place → Place → Bool
  | unordered, _ => false
  | _, unordered => false
  | below, below => true
  | above, above => true
  | .at a b, .at c d => a * d == c * b
  | _, _ => false

end Place

end Binary64

end ClientForge.Number
