import ClientForge.Emission.Enumeration
import ClientForge.Proofs.Numeral
import ClientForge.Proofs.Table

/-!
# Distinct constants

A value that is not the first one of its constant takes a number behind an underscore, the
number of times that this constant was met. The numbered constants are counted nowhere, so
one of them may be the constant of a value on its own, before it or after it in the list.
This is the only way in which two values come to one constant: a number does not hold an
underscore, so the last underscore of a numbered constant shows where its number begins.
-/

namespace ClientForge.Emission

open ClientForge.Text

/-- Items with the number of equal ones that stand before each, some others ahead of all. -/
def ranked : List String → List String → List (String × Nat)
  | _, [] => []
  | before, k :: rest => (k, before.count k) :: ranked (k :: before) rest

/-- The constant that a value takes after `n` others of the same one. -/
def numbered (constant : String) (n : Nat) : String :=
  if n = 0 then constant else constant ++ "_" ++ toString (n + 1)

section Ranked

variable {before ks : List String} {k : String} {n : Nat}

/-- Ranks go on from the number of items ahead. -/
theorem mem_ranked :
    (k, n) ∈ ranked before ks ↔ before.count k ≤ n ∧ n < before.count k + ks.count k := by
  induction ks generalizing before with
  | nil =>
      simp only [ranked, List.not_mem_nil, List.count_nil, Nat.add_zero, false_iff]
      omega
  | cons j rest ih =>
      rw [ranked, List.mem_cons, ih, Prod.mk.injEq]
      by_cases same : j = k
      · subst same
        rw [List.count_cons_self, List.count_cons_self]
        simp only [true_and]
        omega
      · rw [List.count_cons_of_ne same, List.count_cons_of_ne same]
        simp only [Ne.symm same, false_and, false_or]

/-- No item comes twice with the same rank. -/
theorem nodup_ranked : (ranked before ks).Nodup := by
  induction ks generalizing before with
  | nil => exact List.nodup_nil
  | cons k rest ih =>
      refine List.nodup_cons.mpr ⟨fun again => ?_, ih⟩
      have later := (mem_ranked.mp again).1
      rw [List.count_cons_self] at later
      omega

end Ranked

/-- Whether a table says how often each of some constants was met. -/
def Counts (used : Table Nat) (before : List String) : Prop :=
  ∀ k, used.get? k = if k ∈ before then some (before.count k) else none

theorem Counts.put {used : Table Nat} {before : List String} (counts : Counts used before)
    (k : String) : Counts (used.put k (before.count k + 1)) (k :: before) := by
  intro j
  by_cases same : j = k
  · subst same
    rw [Table.get?_put_self, if_pos List.mem_cons_self, List.count_cons_self]
  · rw [Table.get?_put_of_ne same, counts, List.count_cons_of_ne (Ne.symm same)]
    simp [same]

/-- The constants of cases are those of the values, numbered by their ranks. -/
theorem constants_enumCasesFrom {used : Table Nat} {before values : List String}
    (counts : Counts used before) :
    (enumCasesFrom used values).map (·.constant) =
      (ranked before (values.map enumConstant)).map fun x => numbered x.1 x.2 := by
  induction values generalizing used before with
  | nil => rfl
  | cons value rest ih =>
      have later := ih (counts.put (enumConstant value))
      have found := counts (enumConstant value)
      rw [List.map_cons, ranked, List.map_cons, enumCasesFrom]
      dsimp only
      by_cases there : enumConstant value ∈ before
      · have some_ : before.count (enumConstant value) ≠ 0 := (List.count_pos_iff.mpr there).ne'
        rw [if_pos there] at found
        rw [found, List.map_cons, later, numbered, if_neg some_]
      · have none_ : before.count (enumConstant value) = 0 := List.count_eq_zero.mpr there
        rw [if_neg there] at found
        rw [none_] at later
        rw [found, List.map_cons, later, none_, numbered, if_pos rfl]

theorem constants_enumCases (values : List String) :
    (enumCases values).map (·.constant) =
      (ranked [] (values.map enumConstant)).map fun x => numbered x.1 x.2 :=
  constants_enumCasesFrom fun _ => rfl

/-- There is one case for each value, in the order of the values. -/
theorem values_enumCasesFrom (used : Table Nat) (values : List String) :
    (enumCasesFrom used values).map (·.value) = values := by
  fun_induction enumCasesFrom used values with
  | case1 => rfl
  | case2 used value rest constant n met ih => rw [List.map_cons, ih]
  | case3 used value rest constant fresh ih => rw [List.map_cons, ih]

section Numbered

variable {j k : String} {m n : Nat}

theorem numbered_zero (k : String) : numbered k 0 = k := rfl

theorem toList_numbered (some_ : n ≠ 0) :
    (numbered k n).toList = k.toList ++ '_' :: (toString (n + 1)).toList := by
  simp [numbered, some_]

theorem underscore_notMem_toString (n : Nat) : '_' ∉ (toString n).toList := by
  intro sign
  have digit := isAsciiDigit_of_mem_toString sign
  exact absurd digit (by decide)

/-- Where two texts end alike from their last separators on, they are alike. -/
theorem append_cons_inj_of_notMem {sep : Char} {as bs cs ds : List Char} (hc : sep ∉ cs)
    (hd : sep ∉ ds) (same : as ++ sep :: cs = bs ++ sep :: ds) : as = bs ∧ cs = ds := by
  rcases List.append_eq_append_iff.mp same with ⟨more, longer, cut⟩ | ⟨more, longer, cut⟩
  · cases more with
    | nil => exact ⟨by simpa using longer.symm, (List.cons.inj cut).2⟩
    | cons c more =>
        obtain ⟨rfl, rfl⟩ := List.cons.inj cut
        exact absurd (by simp) hc
  · cases more with
    | nil => exact ⟨by simpa using longer, (List.cons.inj cut).2.symm⟩
    | cons c more =>
        obtain ⟨rfl, rfl⟩ := List.cons.inj cut
        exact absurd (by simp) hd

/-- A numbered constant shows its constant and its number. -/
theorem numbered_inj (hm : m ≠ 0) (hn : n ≠ 0) (same : numbered j m = numbered k n) :
    j = k ∧ m = n := by
  have chars := congrArg String.toList same
  rw [toList_numbered hm, toList_numbered hn] at chars
  obtain ⟨constant, digits⟩ := append_cons_inj_of_notMem (underscore_notMem_toString _)
    (underscore_notMem_toString _) chars
  have number := toString_injective (String.toList_inj.mp digits)
  exact ⟨String.toList_inj.mp constant, by omega⟩

end Numbered

/-- Whether no constant of a repeated value is the constant of another value, as soon as it
is numbered. -/
def NumberedApart (values : List String) : Prop :=
  ∀ v ∈ values, ∀ n < (values.map enumConstant).count (enumConstant v), n ≠ 0 →
    ∀ w ∈ values, enumConstant w ≠ numbered (enumConstant v) n

instance (values : List String) : Decidable (NumberedApart values) :=
  inferInstanceAs (Decidable (∀ v ∈ values,
    ∀ n < (values.map enumConstant).count (enumConstant v), n ≠ 0 →
      ∀ w ∈ values, enumConstant w ≠ numbered (enumConstant v) n))

theorem mem_ranked_nil {ks : List String} {k : String} {n : Nat} :
    (k, n) ∈ ranked [] ks ↔ n < ks.count k := by
  simp [mem_ranked]

/-- What is ranked is the constant of a value. -/
theorem exists_of_mem_ranked {values : List String} {k : String} {n : Nat}
    (h : (k, n) ∈ ranked [] (values.map enumConstant)) : ∃ v ∈ values, enumConstant v = k :=
  List.mem_map.mp (List.count_pos_iff.mp (Nat.zero_lt_of_lt (mem_ranked_nil.mp h)))

theorem nodup_constants_iff (values : List String) :
    ((enumCases values).map (·.constant)).Nodup ↔ NumberedApart values := by
  rw [constants_enumCases, List.nodup_map_iff_inj_on nodup_ranked]
  constructor
  · rintro apart v hv n ranked_ some_ w hw same
    have first : (enumConstant w, 0) ∈ ranked [] (values.map enumConstant) :=
      mem_ranked_nil.mpr (List.count_pos_iff.mpr (List.mem_map_of_mem hw))
    have equal := apart _ first _ (mem_ranked_nil.mpr ranked_) same
    exact some_ (congrArg Prod.snd equal).symm
  · rintro apart ⟨j, m⟩ hj ⟨k, n⟩ hk same
    dsimp only at same
    obtain ⟨v, hv, rfl⟩ := exists_of_mem_ranked hj
    obtain ⟨w, hw, rfl⟩ := exists_of_mem_ranked hk
    by_cases hm : m = 0
    · by_cases hn : n = 0
      · rw [hm, hn, numbered_zero, numbered_zero] at same
        rw [same, hm, hn]
      · rw [hm, numbered_zero] at same
        exact absurd same (apart w hw n (mem_ranked_nil.mp hk) hn v hv)
    · by_cases hn : n = 0
      · rw [hn, numbered_zero] at same
        exact absurd same.symm (apart v hv m (mem_ranked_nil.mp hj) hm w hw)
      · obtain ⟨constant, number⟩ := numbered_inj hm hn same
        rw [constant, number]

/-- The members of the object that is written with some cases: a constant that comes again
replaces the value and adds none. -/
def members (cases : List EnumCase) : Table String :=
  Table.ofList (cases.map fun c => (c.constant, c.value))

/-- The constants of an enumeration are distinct exactly if no numbered constant is that of
another value, and then, and only then, each case is a member of the generated object. -/
theorem enum_constants_nodup_iff (values : List String) :
    (((enumCases values).map (·.constant)).Nodup ↔ NumberedApart values) ∧
    (members (enumCases values) = (enumCases values).map (fun c => (c.constant, c.value)) ↔
      NumberedApart values) := by
  have distinct := nodup_constants_iff values
  refine ⟨distinct, ?_⟩
  rw [← distinct, members, Table.ofList_eq_self_iff, Table.names, List.map_map]
  rfl

example : NumberedApart ["a-b", "a_b", "3d", "it's"] := by decide +kernel

/-- The number of a repeated constant completes it to the constant of the next value. The
object has two members for three values. -/
theorem numbered_constant_given :
    (enumCases ["a b", "a-b", "a b 2"]).map (·.constant) = ["A_B", "A_B_2", "A_B_2"] ∧
    ¬ ((enumCases ["a b", "a-b", "a b 2"]).map (·.constant)).Nodup ∧
    members (enumCases ["a b", "a-b", "a b 2"]) = [("A_B", "a b"), ("A_B_2", "a b 2")] := by
  refine ⟨?_, ?_, ?_⟩ <;> decide +kernel

end ClientForge.Emission
