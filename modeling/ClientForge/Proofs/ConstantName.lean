import ClientForge.Proofs.EnumConstants
import ClientForge.Proofs.Identifier
import ClientForge.Proofs.SourceLiteral
import ClientForge.Proofs.WordScan
import Mathlib.Data.List.Forall2

/-!
# Names of constants

A constant is named in capitals, digits and underscores, with a capital in front. Such is the
constant of every value, whatever characters the value holds: its letters and digits in capitals
are all that is left of it, an underscore stands between two runs and never at an end, a word is
put in front of a digit, and a value without letters and digits takes a word for its constant. A
number behind an underscore keeps the form.

So the cases of an enumeration are one for each value, in the order of the values, and each of
them has a constant of this form and a literal from which the value is regained.
-/

namespace ClientForge.Emission

open ClientForge.Naming ClientForge.Text

variable {name text value : String} {c : Char} {piece sep : List Char} {more : List (List Char)}
  {values : List String}

/-- A capital, a digit or an underscore. -/
def isConstantChar (c : Char) : Bool := isAsciiUpper c || isAsciiDigit c || c == '_'

/-- Whether a name has the form of a constant's. -/
structure IsConstantName (name : String) : Prop where
  starts : name.toList.head?.any isAsciiUpper = true
  chars : ∀ c ∈ name.toList, isConstantChar c = true

instance (name : String) : Decidable (IsConstantName name) :=
  decidable_of_iff (name.toList.head?.any isAsciiUpper = true ∧
      name.toList.all isConstantChar = true)
    ⟨fun h => ⟨h.1, List.all_eq_true.mp h.2⟩, fun h => ⟨h.starts, List.all_eq_true.mpr h.chars⟩⟩

theorem isWordChar_or_of_isConstantChar (h : isConstantChar c = true) :
    isWordChar c = true ∨ c = '_' := by
  simp only [isConstantChar, Bool.or_eq_true, beq_iff_eq] at h
  rcases h with (upper | digit) | sign
  · exact .inl (isWordChar_of_isAsciiUpper upper)
  · exact .inl (isWordChar_of_isAsciiDigit digit)
  · exact .inr sign

namespace IsConstantName

/-- The name of a constant is an identifier of both languages. -/
theorem isIdentifier (h : IsConstantName name) : IsIdentifier name := by
  refine ⟨?_, fun c hc => isWordChar_or_of_isConstantChar (h.chars c hc)⟩
  obtain ⟨c, first, upper⟩ := (Option.any_eq_true _ _).mp h.starts
  simp [first, isAsciiLetter, upper]

theorem append (h : IsConstantName name) (others : ∀ c ∈ text.toList, isConstantChar c = true) :
    IsConstantName (name ++ text) := by
  refine ⟨?_, fun c hc => ?_⟩
  · obtain ⟨c, first, upper⟩ := (Option.any_eq_true _ _).mp h.starts
    rw [String.toList_append, List.head?_append, first]
    exact upper
  · rw [String.toList_append, List.mem_append] at hc
    exact hc.elim (h.chars c) (others c)

/-- A number behind an underscore keeps the form. -/
theorem numbered (h : IsConstantName name) (n : Nat) : IsConstantName (numbered name n) := by
  have sign : ∀ c ∈ "_".toList, isConstantChar c = true := List.all_eq_true.mp (by decide)
  unfold Emission.numbered
  split
  · exact h
  · refine (h.append sign).append fun c hc => ?_
    simp [isConstantChar, isAsciiDigit_of_mem_toString hc]

end IsConstantName

/-! ## The constant of a value -/

theorem isConstantChar_capital (word : isWordChar c = true) :
    isConstantChar (capital c) = true := by
  cases lower : isAsciiLower c with
  | true => simp [isConstantChar, isAsciiUpper_capital lower]
  | false =>
      rw [capital_eq_self lower]
      simp only [isWordChar, isAsciiLetter, lower, Bool.or_false] at word
      simp [isConstantChar, word]

theorem head?_joinWith (some_ : piece ≠ []) :
    (joinWith sep (piece :: more)).head? = piece.head? := by
  cases more with
  | nil => rfl
  | cons next more =>
      obtain ⟨c, rest, rfl⟩ := List.exists_cons_of_ne_nil some_
      rfl

/-- The runs of letters and digits of a value in capitals, joined by underscores. -/
def joinedRuns (value : String) : List Char :=
  joinWith ['_'] ((runs value.toList).map (·.map capital))

theorem isConstantChar_of_mem_joinedRuns (h : c ∈ joinedRuns value) : isConstantChar c = true := by
  rcases mem_joinWith h with sign | ⟨_, hm, hc⟩
  · obtain rfl := List.mem_singleton.mp sign
    decide
  · obtain ⟨run, hr, rfl⟩ := List.mem_map.mp hm
    obtain ⟨d, hd, rfl⟩ := List.mem_map.mp hc
    exact isConstantChar_capital (isWordChar_of_mem_runs hr hd)

/-- No underscore is in front. -/
theorem isWordChar_of_head?_joinedRuns (h : (joinedRuns value).head? = some c) :
    isWordChar c = true := by
  unfold joinedRuns at h
  cases cut : runs value.toList with
  | nil =>
      rw [cut] at h
      cases h
  | cons run others =>
      have known : run ∈ runs value.toList := cut ▸ List.mem_cons_self
      obtain ⟨d, rest, rfl⟩ := List.exists_cons_of_ne_nil (ne_nil_of_mem_runs known)
      have some_ : (d :: rest).map capital ≠ [] := List.cons_ne_nil _ _
      rw [cut, List.map_cons, head?_joinWith some_] at h
      obtain rfl := Option.some.inj h
      exact isWordChar_capital (isWordChar_of_mem_runs known List.mem_cons_self)

theorem isConstantName_enumConstant (value : String) : IsConstantName (enumConstant value) := by
  have chars (c) (hc : c ∈ joinedRuns value) := isConstantChar_of_mem_joinedRuns hc
  have first (c) (hc : (joinedRuns value).head? = some c) := isWordChar_of_head?_joinedRuns hc
  have opened : IsConstantName "VALUE_" := by decide
  rw [enumConstant, ← joinedRuns]
  generalize joinedRuns value = cs at chars first ⊢
  cases cs with
  | nil => decide
  | cons c rest =>
      dsimp only
      split
      next digit => exact opened.append (by rwa [String.toList_ofList])
      next noDigit =>
        have word := first c rfl
        have constant := chars c List.mem_cons_self
        have upper : isAsciiUpper c = true := by
          simp only [isConstantChar, Bool.or_eq_true, beq_iff_eq] at constant
          rcases constant with (upper | digit) | rfl
          · exact upper
          · exact absurd digit noDigit
          · cases word
        exact ⟨by simpa using upper, by rwa [String.toList_ofList]⟩

/-! ## Cases -/

theorem isConstantName_of_mem_enumCases {k : EnumCase} (h : k ∈ enumCases values) :
    IsConstantName k.constant := by
  have known : k.constant ∈ (enumCases values).map (·.constant) := List.mem_map_of_mem h
  rw [constants_enumCases] at known
  obtain ⟨⟨_, n⟩, ranked_, same⟩ := List.mem_map.mp known
  obtain ⟨v, -, rfl⟩ := exists_of_mem_ranked ranked_
  rw [← same]
  exact (isConstantName_enumConstant v).numbered n

/-- What a case says of its value: its constant is well named, and its literal gives the value
back, by undoing the replacements as well as by the rule for reading literals. -/
structure Represents (value : String) (k : EnumCase) : Prop where
  constant : IsConstantName k.constant
  identifier : IsIdentifier k.constant
  undone : Literal.undone k.literal.toList = value.toList
  read : ∀ rest, Literal.read (k.literal.toList ++ rest) = some (value.toList, rest)

/-- The cases of an enumeration represent its values one by one, in their order. The constant of
a case is that of its value, with a number if there are others of it in front. -/
theorem enumCases_represent (values : List String) :
    List.Forall₂ Represents values (enumCases values) ∧
    (enumCases values).map (·.constant) =
      (ranked [] (values.map enumConstant)).map fun x => numbered x.1 x.2 := by
  have same : (enumCases values).map (·.value) = values := values_enumCasesFrom [] values
  have each : ∀ k ∈ enumCases values, Represents k.value k := by
    intro k hk
    have constant := isConstantName_of_mem_enumCases hk
    exact ⟨constant, constant.isIdentifier, Literal.undone_quote k.value,
      Literal.read_quote k.value⟩
  have pairs : List.Forall₂ Represents ((enumCases values).map (·.value)) (enumCases values) :=
    List.forall₂_map_left_iff.mpr (List.forall₂_same.mpr each)
  rw [same] at pairs
  exact ⟨pairs, constants_enumCases values⟩

/-- Without letters and digits, with a digit in front, in other scripts, and once more. -/
example : (enumCases ["", "3d", "été", "--", "a-b", "a_b"]).map (·.constant) =
    ["EMPTY", "VALUE_3D", "T", "EMPTY_2", "A_B", "A_B_2"] := by decide +kernel

end ClientForge.Emission
