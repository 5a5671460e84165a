import ClientForge.TypeExpr.Node

/-!
# Well-formed references

A reference that is read off a document is a scalar, a named type, or an array over
another such reference. In these the kind of a reference and its element agree, and the
type that a reference depends on is the one that it names under its arrays.
-/

namespace ClientForge

namespace Reference

variable {r : Reference} {n : String}

/-- A scalar, a named type, or an array over a well-formed reference. -/
inductive WellFormed : Reference → Prop
  | scalar (s : Scalar) : WellFormed (.scalar s)
  | named (n : String) : WellFormed (.named n)
  | array {r : Reference} (items : WellFormed r) : WellFormed (.array r)

/-- A reference names a type, through any number of arrays. -/
inductive Names : Reference → String → Prop
  | named (n : String) : Names (.named n) n
  | array {r : Reference} {n : String} (items : Names r n) : Names (.array r) n

@[simp] theorem kind_scalar (s : Scalar) : (scalar s).kind = .scalar := rfl

@[simp] theorem kind_named (n : String) : (named n).kind = .type := rfl

@[simp] theorem kind_array (r : Reference) : (array r).kind = .array := rfl

@[simp] theorem isArray_scalar (s : Scalar) : (scalar s).isArray = false := rfl

@[simp] theorem isArray_named (n : String) : (named n).isArray = false := rfl

@[simp] theorem isArray_array (r : Reference) : (array r).isArray = true := rfl

/-- The type that a reference depends on, if its innermost element is one. -/
def target? (r : Reference) : Option String :=
  if r.element.kind = .type then some r.element.name else none

@[simp] theorem target?_scalar (s : Scalar) : (scalar s).target? = none := rfl

@[simp] theorem target?_named (n : String) : (named n).target? = some n := rfl

@[simp] theorem target?_array (r : Reference) : (array r).target? = r.target? := rfl

theorem dependsOn_eq (r : Reference) : r.dependsOn = r.target?.toList := by
  unfold dependsOn target?
  split <;> rfl

theorem names_array_iff : (array r).Names n ↔ r.Names n := by
  constructor
  · intro h
    generalize same : array r = s at h
    cases h with
    | named n => cases same
    | array items =>
        injection same with _ _ inner
        exact inner ▸ items
  · exact .array

/-- A well-formed reference depends on the type that it names. -/
theorem WellFormed.target?_eq_some (h : r.WellFormed) : r.target? = some n ↔ r.Names n := by
  induction h with
  | scalar s =>
      constructor
      · intro h
        cases h
      · intro h
        cases h
  | named m =>
      constructor
      · rintro ⟨⟩
        exact .named m
      · intro h
        cases h
        rfl
  | @array r items ih => rw [target?_array, ih, names_array_iff]

theorem WellFormed.arrays (h : r.WellFormed) (depth : Nat) : (r.arrays depth).WellFormed := by
  induction depth generalizing r with
  | zero => exact h
  | succ depth ih => exact ih h.array

/-- The items of a well-formed reference are well-formed. -/
theorem WellFormed.items {items : Reference} (h : r.WellFormed) (hi : r.items? = some items) :
    items.WellFormed := by
  cases h with
  | scalar s => cases hi
  | named n => cases hi
  | array inner =>
      obtain rfl := Option.some.inj hi
      exact inner

theorem kind_arrays_succ (depth : Nat) (r : Reference) :
    (r.arrays (depth + 1)).kind = .array := by
  induction depth generalizing r with
  | zero => rfl
  | succ depth ih => exact ih (array r)

end Reference

namespace TypeExpr

open ClientForge.Value

theorem wellFormed_single (token : List Char) : (single token).WellFormed := by
  unfold single
  split
  · exact .array (.scalar .any)
  · split
    · exact .scalar _
    · exact .named _

theorem wellFormed_union (tokens : List (List Char)) : (union tokens).WellFormed := by
  unfold union
  split
  · exact wellFormed_single _
  · exact .scalar .any

/-- Every expression names a well-formed type. -/
theorem wellFormed_parse (token : String) : (parse token).1.WellFormed :=
  (wellFormed_union _).arrays _

/-- The named type of an expression has a name. -/
theorem name_ne_empty_of_parse {token : String} (h : (parse token).1.kind = .type) :
    (parse token).1.name ≠ "" := by
  change (Reference.arrays _ (union _)).kind = .type at h
  change (Reference.arrays _ (union _)).name ≠ ""
  generalize hd : (suffixes (Text.trim token.toList).reverse).1 = depth at h ⊢
  generalize hp : List.filter _ (alternatives _) = parts at h ⊢
  have nonempty : ∀ p ∈ parts, p ≠ [] := by
    intro p hp'
    rw [← hp, List.mem_filter, alternatives, List.mem_filter] at hp'
    rintro rfl
    simp at hp'
  cases depth with
  | succ depth =>
      rw [Reference.kind_arrays_succ] at h
      cases h
  | zero =>
      change (union parts).kind = .type at h
      change (union parts).name ≠ ""
      unfold union at h ⊢
      split at h
      next p =>
        unfold single at h ⊢
        split at h
        · cases h
        · next notArray =>
          rw [if_neg notArray]
          split at h
          · cases h
          · intro empty
            exact nonempty p List.mem_cons_self (String.ofList_eq_empty_iff.mp empty)
      next => cases h

theorem wellFormed_overItems {parsed : Option Reference × Bool} {r : Reference}
    (items : ∀ i, parsed.1 = some i → i.WellFormed)
    (h : some (Reference.array (parsed.1.getD (.scalar .any))) = some r) : r.WellFormed := by
  obtain rfl := Option.some.inj h
  cases found : parsed.1 with
  | none => exact .array (.scalar .any)
  | some i => exact .array (items i found)

/-- Every type node describes a well-formed type, if it describes one. -/
theorem wellFormed_ofNode (node : Value) :
    ∀ r, (ofNode node).1 = some r → r.WellFormed := by
  fun_induction ofNode node with
  | case1 token =>
      rintro _ ⟨⟩
      exact wellFormed_parse token
  | case2 es isEnum =>
      rintro _ ⟨⟩
      exact .scalar .string
  | case3 es notEnum token declared isArray node items _ ih =>
      intro r h
      exact wellFormed_overItems ih h
  | case4 es notEnum token declared isArray items _ =>
      rintro _ ⟨⟩
      exact .array (.scalar .any)
  | case5 es notEnum token declared notArray =>
      rintro _ ⟨⟩
      exact wellFormed_parse token
  | case6 es notEnum node declared items ih =>
      intro r h
      exact wellFormed_overItems ih h
  | case7 es notEnum node declared items ih =>
      intro r h
      exact wellFormed_overItems ih h
  | case8 es notEnum node declared ih => exact ih
  | case9 es notEnum =>
      rintro _ ⟨⟩
      exact .scalar _
  | case10 v =>
      rintro _ ⟨⟩

end TypeExpr

end ClientForge
