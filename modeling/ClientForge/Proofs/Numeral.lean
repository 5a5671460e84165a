import ClientForge.Json
import Mathlib.Algebra.Order.Ring.Nat
import Mathlib.Tactic.NormNum

/-!
# The text of a number

A number is written as a word of letters, digits, signs and points. Of these a zero, a
point and a minus sign leave open whether the number is zero, and the text has nothing
else exactly if it is. For a floating-point number this rests on the digits that the
search finds: a number that is written without an exponent is so large that even the
grid on which the search gives up holds a digit other than zero. No number is written
in lower-case letters alone, so none is taken for a constant.
-/

namespace ClientForge

namespace Text

/-- Whether a character can stand in a word: a letter, a digit, a sign or a point. -/
def isSign (c : Char) : Bool := isWordChar c || c == '-' || c == '+' || c == '.'

/-- Whether a character can stand in the text of zero. -/
def isNought (c : Char) : Bool := c == '0' || c == '.' || c == '-'

theorem isSign_of_isAsciiDigit {c : Char} (h : isAsciiDigit c = true) : isSign c = true := by
  simp [isSign, isWordChar, h]

theorem not_isAsciiLower_of_isAsciiDigit {c : Char} (h : isAsciiDigit c = true) :
    isAsciiLower c = false := by
  simp only [isAsciiDigit, Bool.and_eq_true, decide_eq_true_eq] at h
  have above : ¬ 'a' ≤ c := fun letter => absurd (Char.le_trans letter h.2) (by decide)
  simp [isAsciiLower, above]

theorem isNought_of_isAsciiDigit {c : Char} (h : isAsciiDigit c = true) :
    isNought c = true ↔ c = '0' := by
  have point : c ≠ '.' := by
    rintro rfl
    exact absurd h (by decide)
  have minus : c ≠ '-' := by
    rintro rfl
    exact absurd h (by decide)
  simp [isNought, point, minus]

/-! ## Integers -/

theorem isAsciiDigit_of_mem_toString {n : Nat} {c : Char} (h : c ∈ (toString n).toList) :
    isAsciiDigit c = true := by
  rw [Nat.toString_eq_repr, Nat.toList_repr] at h
  have digit := Nat.isDigit_of_mem_toDigits (by decide) (by decide) h
  rw [Char.isDigit_iff_toNat] at digit
  simp only [isAsciiDigit, Bool.and_eq_true, decide_eq_true_eq, Char.le_def]
  exact ⟨digit.1, digit.2⟩

theorem toList_toString_ne_nil (n : Nat) : (toString n).toList ≠ [] := by
  rw [Nat.toString_eq_repr, Nat.toList_repr]
  exact Nat.toDigits_ne_nil

theorem toString_injective {n m : Nat} (same : toString n = toString m) : n = m := by
  rw [Nat.toString_eq_repr, Nat.toString_eq_repr] at same
  have digits : Nat.toDigits 10 n = Nat.toDigits 10 m := by
    rw [← Nat.toList_repr, ← Nat.toList_repr, same]
  have value := congrArg (fun cs => Nat.ofDigitChars 10 cs 0) digits
  simpa using value

/-- A number other than zero has a digit other than zero. -/
theorem exists_mem_toString {n : Nat} (h : n ≠ 0) : ∃ c ∈ (toString n).toList, c ≠ '0' := by
  rw [Nat.toString_eq_repr, Nat.toList_repr]
  induction n using Nat.strongRecOn with
  | _ n ih =>
      rw [Nat.toDigits_eq_if (by decide)]
      split
      · exact ⟨_, List.mem_singleton_self _, by simpa using h⟩
      · obtain ⟨c, member, other⟩ := ih (n / 10) (by omega) (by omega)
        exact ⟨c, List.mem_append_left _ member, other⟩

theorem all_isNought_toString {n : Nat} : (toString n).toList.all isNought = true ↔ n = 0 := by
  constructor
  · intro all
    by_contra nonzero
    obtain ⟨c, member, other⟩ := exists_mem_toString nonzero
    have nought := List.all_eq_true.mp all c member
    exact other ((isNought_of_isAsciiDigit (isAsciiDigit_of_mem_toString member)).mp nought)
  · rintro rfl
    decide

theorem toList_toString_int (n : Int) :
    (toString n).toList = if 0 ≤ n then (toString n.toNat).toList
      else '-' :: (toString (-n).toNat).toList := by
  rw [Int.toString_eq_repr, Int.repr_eq_if]
  split
  · rfl
  · rw [String.toList_append]
    rfl

theorem isSign_of_mem_toString_int {n : Int} {c : Char} (h : c ∈ (toString n).toList) :
    isSign c = true := by
  rw [toList_toString_int] at h
  split at h
  · exact isSign_of_isAsciiDigit (isAsciiDigit_of_mem_toString h)
  · rcases List.mem_cons.mp h with rfl | h
    · decide
    · exact isSign_of_isAsciiDigit (isAsciiDigit_of_mem_toString h)

theorem all_isNought_toString_int {n : Int} :
    (toString n).toList.all isNought = true ↔ n = 0 := by
  rw [toList_toString_int]
  split
  · rw [all_isNought_toString]
    omega
  · have minus : isNought '-' = true := by decide
    rw [List.all_cons, minus, Bool.true_and, all_isNought_toString]
    omega

theorem exists_mem_toString_int (n : Int) :
    ∃ c ∈ (toString n).toList, isAsciiLower c = false := by
  rw [toList_toString_int]
  split
  · obtain ⟨c, member⟩ := List.exists_mem_of_ne_nil _ (toList_toString_ne_nil n.toNat)
    exact ⟨c, member, not_isAsciiLower_of_isAsciiDigit (isAsciiDigit_of_mem_toString member)⟩
  · exact ⟨'-', List.mem_cons_self, by decide⟩

end Text

/-! ## Floating-point numbers -/

namespace Number.Shortest

open Text

theorem leadingDigit_le (num den fuel : Nat) (p : Int) : leadingDigit num den fuel p ≤ p := by
  induction fuel generalizing p with
  | zero => exact le_refl p
  | succ fuel ih =>
      rw [leadingDigit]
      split
      · exact le_refl p
      · have := ih (p - 1)
        omega

theorem ne_zero_of_neighbour? {i : Interval} {k : Int} {n : Nat} (h : i.neighbour? k = some n) :
    n ≠ 0 := by
  unfold Interval.neighbour? at h
  dsimp only at h
  split at h
  next below _ =>
      have nonzero := ((Bool.and_eq_true _ _).mp below).1
      split at h
      · cases h
        simpa using nonzero
      · cases h
        exact Nat.succ_ne_zero _
  next below _ =>
      have nonzero := ((Bool.and_eq_true _ _).mp below).1
      cases h
      simpa using nonzero
  next =>
      cases h
      exact Nat.succ_ne_zero _
  next => cases h

/-- The search gives up on the last grid only. -/
theorem search_cases (i : Interval) (fuel : Nat) (k : Int) :
    (search i fuel k).digits ≠ 0 ∨
      search i fuel k =
        ⟨(i.onGrid (k - fuel)).1 / (i.onGrid (k - fuel)).2, k - fuel⟩ := by
  induction fuel generalizing k with
  | zero => exact .inr (by simp [search])
  | succ fuel ih =>
      rw [search]
      cases found : i.neighbour? k with
      | some n => exact .inl (ne_zero_of_neighbour? found)
      | none =>
          have shift : k - 1 - (fuel : Int) = k - (fuel + 1 : Nat) := by omega
          rw [← shift]
          exact ih (k - 1)

/-- A number is not below the power of two that its bits give, and so not below a
smaller power of ten. -/
theorem onGrid_div_ne_zero (bits : Nat) {mantissa : Nat} {exponent k : Int}
    (nonzero : mantissa ≠ 0) (power : 10 ^ k.toNat ≤ 2 ^ bits)
    (size : (bits : Int) ≤ mantissa.log2 + exponent) :
    ((Interval.of mantissa exponent).onGrid k).1 /
      ((Interval.of mantissa exponent).onGrid k).2 ≠ 0 := by
  refine Nat.div_ne_zero_iff.mpr ⟨?_, ?_⟩
  · exact Nat.mul_ne_zero (Nat.mul_ne_zero (by decide) (Nat.pow_pos (by decide)).ne')
      (Nat.pow_pos (by decide)).ne'
  · calc 4 * 2 ^ (-exponent).toNat * 10 ^ k.toNat
        ≤ 4 * 2 ^ (-exponent).toNat * 2 ^ bits := Nat.mul_le_mul_left _ power
      _ = 4 * 2 ^ ((-exponent).toNat + bits) := by rw [pow_add, mul_assoc]
      _ ≤ 4 * 2 ^ (mantissa.log2 + exponent.toNat) :=
          Nat.mul_le_mul_left _ (Nat.pow_le_pow_right (by decide) (by omega))
      _ = 4 * 2 ^ mantissa.log2 * 2 ^ exponent.toNat := by rw [pow_add, mul_assoc]
      _ ≤ 4 * mantissa * 2 ^ exponent.toNat :=
          Nat.mul_le_mul_right _ (Nat.mul_le_mul_left _ (Nat.log2_self_le nonzero))
      _ ≤ 4 * mantissa * 2 ^ exponent.toNat * 10 ^ (-k).toNat :=
          Nat.le_mul_of_pos_right _ (Nat.pow_pos (by decide))

/-- Positional notation is for numbers whose digits are not all zero. -/
theorem digits_decimal_ne_zero {mantissa : Nat} {exponent : Int} (nonzero : mantissa ≠ 0)
    (above : -4 < (decimal mantissa exponent).significant.2)
    (below : (decimal mantissa exponent).significant.2 ≤ 16) :
    (decimal mantissa exponent).digits ≠ 0 := by
  obtain ⟨p, top, found⟩ : ∃ p, p ≤ ((mantissa.log2 : Int) + exponent) * 30103 / 100000 + 1 ∧
      decimal mantissa exponent = search (Interval.of mantissa exponent) 18 p :=
    ⟨_, leadingDigit_le _ _ _ _, rfl⟩
  rw [found] at above below ⊢
  rcases search_cases (Interval.of mantissa exponent) 18 p with digits | last
  · exact digits
  · intro zero
    have point : (search (Interval.of mantissa exponent) 18 p).significant.2 = 1 + (p - 18) := by
      rw [last] at zero ⊢
      rw [Decimal.significant, zero]
      rfl
    rw [point] at above below
    rw [last] at zero
    -- The last grid is at most 10¹⁵; the number has so many bits that it is not below it.
    rcases le_or_gt (p - 18) 0 with fine | coarse
    · have unit : (p - 18).toNat = 0 := by omega
      refine onGrid_div_ne_zero 0 nonzero ?_ ?_ zero
      · simp [unit]
      · push_cast
        omega
    · refine onGrid_div_ne_zero 50 nonzero ?_ ?_ zero
      · calc 10 ^ (p - 18).toNat ≤ 10 ^ 15 := Nat.pow_le_pow_right (by decide) (by omega)
          _ ≤ 2 ^ 50 := by decide
      · push_cast
        omega

theorem isAsciiDigit_of_mem_significant {d : Decimal} {c : Char} (h : c ∈ d.significant.1) :
    isAsciiDigit c = true := by
  refine isAsciiDigit_of_mem_toString (n := d.digits) ?_
  exact List.mem_reverse.mp ((List.dropWhile_sublist _).subset (List.mem_reverse.mp h))

/-- Dropping trailing zeros leaves the other digits. -/
theorem exists_mem_significant {d : Decimal} (h : d.digits ≠ 0) :
    ∃ c ∈ d.significant.1, c ≠ '0' := by
  obtain ⟨c, member, other⟩ := exists_mem_toString h
  refine ⟨c, List.mem_reverse.mpr ?_, other⟩
  have parts := List.takeWhile_append_dropWhile (p := (· == '0'))
    (l := (toString d.digits).toList.reverse)
  rw [← List.mem_reverse, ← parts, List.mem_append] at member
  rcases member with zero | kept
  · exact absurd (by simpa using List.all_eq_true.mp List.all_takeWhile c zero) other
  · exact kept

theorem mem_positional_cases {digits : List Char} {point : Int} {c : Char}
    (h : c ∈ positional digits point) : c ∈ digits ∨ c = '0' ∨ c = '.' := by
  unfold positional at h
  dsimp only at h
  split_ifs at h
  · simp only [List.mem_cons, List.mem_append, List.mem_replicate] at h
    tauto
  · simp only [List.mem_cons, List.mem_append, List.mem_replicate, List.not_mem_nil] at h
    tauto
  · rcases List.mem_append.mp h with h | h
    · exact .inl (List.mem_of_mem_take h)
    · rcases List.mem_cons.mp h with h | h
      · exact .inr (.inr h)
      · exact .inl (List.mem_of_mem_drop h)

theorem mem_positional {digits : List Char} {point : Int} {c : Char} (h : c ∈ digits) :
    c ∈ positional digits point := by
  unfold positional
  dsimp only
  split_ifs
  · simp [h]
  · simp [h]
  · rw [← List.take_append_drop point.toNat digits, List.mem_append] at h
    simpa [or_comm, or_assoc] using h.imp_right (Or.inr (a := c = '.'))

theorem isSign_of_mem_padded {width n : Nat} {c : Char} (h : c ∈ (padded width n).toList) :
    isSign c = true := by
  simp only [padded, String.toList_ofList, List.mem_append, List.mem_replicate] at h
  rcases h with ⟨-, rfl⟩ | h
  · decide
  · exact isSign_of_isAsciiDigit (isAsciiDigit_of_mem_toString h)

theorem isSign_of_mem_scientific {digits : List Char} {point : Int}
    (all : ∀ c ∈ digits, isSign c = true) {c : Char} (h : c ∈ scientific digits point) :
    isSign c = true := by
  have zero : isSign '0' = true := by decide
  have dot : isSign '.' = true := by decide
  unfold scientific at h
  dsimp only at h
  rcases List.mem_append.mp h with fraction | rest
  · split at fraction
    next =>
        obtain rfl := List.mem_singleton.mp fraction
        exact zero
    next => exact all c fraction
    next =>
        rcases List.mem_cons.mp fraction with rfl | fraction
        · exact all c List.mem_cons_self
        · rcases List.mem_cons.mp fraction with rfl | fraction
          · exact dot
          · exact all c (List.mem_cons_of_mem _ fraction)
  · rcases List.mem_cons.mp rest with rfl | rest
    · decide
    · rcases List.mem_cons.mp rest with rfl | rest
      · split <;> decide
      · exact isSign_of_mem_padded rest

/-- What a text has that is of a number other than zero. -/
structure IsNumeral (cs : List Char) : Prop where
  signs : ∀ c ∈ cs, isSign c = true
  nonzero : ∃ c ∈ cs, isNought c = false
  number : ∃ c ∈ cs, isAsciiLower c = false

theorem isNumeral_positional {digits : List Char} {point : Int}
    (all : ∀ c ∈ digits, isAsciiDigit c = true) (some : ∃ c ∈ digits, c ≠ '0') :
    IsNumeral (positional digits point) := by
  obtain ⟨c, member, other⟩ := some
  refine ⟨fun d h => ?_, ⟨c, mem_positional member, ?_⟩, ⟨c, mem_positional member, ?_⟩⟩
  · rcases mem_positional_cases h with h | rfl | rfl
    · exact isSign_of_isAsciiDigit (all d h)
    · decide
    · decide
  · rw [Bool.eq_false_iff]
    exact mt (isNought_of_isAsciiDigit (all c member)).mp other
  · exact not_isAsciiLower_of_isAsciiDigit (all c member)

theorem isNumeral_scientific {digits : List Char} {point : Int}
    (all : ∀ c ∈ digits, isAsciiDigit c = true) : IsNumeral (scientific digits point) := by
  refine ⟨fun d h => isSign_of_mem_scientific (fun c hc => isSign_of_isAsciiDigit (all c hc)) h,
    ⟨'e', by simp [scientific], by decide⟩,
    ⟨if point - 1 < 0 then '-' else '+', by simp [scientific], ?_⟩⟩
  split <;> decide

theorem IsNumeral.minus {cs : List Char} (h : IsNumeral cs) : IsNumeral ('-' :: cs) := by
  obtain ⟨c, member, nonzero⟩ := h.nonzero
  refine ⟨fun d hd => ?_, ⟨c, List.mem_cons_of_mem _ member, nonzero⟩,
    ⟨'-', List.mem_cons_self, by decide⟩⟩
  rcases List.mem_cons.mp hd with rfl | hd
  · decide
  · exact h.signs d hd

theorem isNumeral_of_digits {digits : List Char} {point : Int}
    (all : ∀ c ∈ digits, isAsciiDigit c = true)
    (some : -4 < point → point ≤ 16 → ∃ c ∈ digits, c ≠ '0') :
    IsNumeral (if -4 < point && point ≤ 16 then positional digits point
      else scientific digits point) := by
  split
  next range =>
      obtain ⟨above, below⟩ := by simpa using range
      exact isNumeral_positional all (some above below)
  next => exact isNumeral_scientific all

theorem isNumeral_text {negative : Bool} {mantissa : Nat} {exponent : Int}
    (nonzero : mantissa ≠ 0) : IsNumeral (text (.finite negative mantissa exponent)).toList := by
  have unsigned := isNumeral_of_digits
    (fun c (h : c ∈ (decimal mantissa exponent).significant.1) =>
      isAsciiDigit_of_mem_significant h)
    (fun above below => exists_mem_significant (digits_decimal_ne_zero nonzero above below))
  simp only [text, if_neg nonzero, String.toList_ofList]
  cases negative with
  | false => exact unsigned
  | true => exact unsigned.minus

end Number.Shortest

namespace Json

open Number Text

/-- Zero has a text of its own, with or without a sign. -/
theorem floatText_cases (x : Binary64) :
    (x.isZero = true ∧ ((floatText x).toList = ['0', '.', '0'] ∨
      (floatText x).toList = ['-', '0', '.', '0'])) ∨
      (x.isZero = false ∧ Shortest.IsNumeral (floatText x).toList) := by
  cases x with
  | nan =>
      exact .inr ⟨rfl, List.all_eq_true.mp (by decide), ⟨'N', by decide, by decide⟩,
        ⟨'N', by decide, by decide⟩⟩
  | infinite negative =>
      cases negative <;>
        exact .inr ⟨rfl, List.all_eq_true.mp (by decide), ⟨'I', by decide, by decide⟩,
          ⟨'I', by decide, by decide⟩⟩
  | finite negative mantissa exponent =>
      by_cases zero : mantissa = 0
      · subst zero
        refine .inl ⟨rfl, ?_⟩
        cases negative <;> simp [floatText, Shortest.text]
      · exact .inr ⟨by simpa [Binary64.isZero] using zero, Shortest.isNumeral_text zero⟩

theorem isSign_of_mem_floatText {x : Binary64} {c : Char} (h : c ∈ (floatText x).toList) :
    isSign c = true := by
  rcases floatText_cases x with ⟨-, same | same⟩ | ⟨-, numeral⟩
  · rw [same] at h
    exact List.all_eq_true.mp (by decide) c h
  · rw [same] at h
    exact List.all_eq_true.mp (by decide) c h
  · exact numeral.signs c h

theorem exists_mem_floatText (x : Binary64) :
    ∃ c ∈ (floatText x).toList, isAsciiLower c = false := by
  rcases floatText_cases x with ⟨-, same | same⟩ | ⟨-, numeral⟩
  · exact ⟨'.', by simp [same], by decide⟩
  · exact ⟨'.', by simp [same], by decide⟩
  · exact numeral.number

/-- The text of a number other than zero has more than zeros, points and minus signs. -/
theorem all_isNought_floatText {x : Binary64} :
    (floatText x).toList.all isNought = x.isZero := by
  rcases floatText_cases x with ⟨zero, same | same⟩ | ⟨nonzero, numeral⟩
  · rw [zero, same]
    decide
  · rw [zero, same]
    decide
  · obtain ⟨c, member, shows⟩ := numeral.nonzero
    rw [nonzero, List.all_eq_false]
    exact ⟨c, member, by simp [shows]⟩

end Json

end ClientForge
