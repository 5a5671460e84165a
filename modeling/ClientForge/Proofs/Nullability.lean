import ClientForge.Proofs.NilAlternative
import ClientForge.Declaration.Properties
import Mathlib.Data.List.Forall2

/-!
# Nullable members

A member is promised to be nullable for three reasons, any of which is enough: its key ends in a
question mark, it says that it is not required, or nil is an alternative of its type. The members
of a mapping become properties one by one in its order, and a property is nullable if the member
says that it is not required, or if it says nothing about that and its key is marked, or if nil is
found in its type. So what is said outweighs the mark, an enumeration hides the type that stands
beside it, and nil is not always found where it is offered. In all other cases the promise is kept.
-/

namespace ClientForge.Declaration

open ClientForge.Text ClientForge.TypeExpr ClientForge.Value

variable {key raw : Value} {es : Entries} {token : String} {e : Value × Value}

/-! ## Keys -/

/-- Whether a key ends in a question mark. -/
def IsMarked (key : Value) : Prop := ∃ name, key.text = name ++ "?"

/-- A key is its name, with the mark if it has one. -/
theorem optionalKey_spec (key : String) :
    key = (optionalKey key).1 ++ (if (optionalKey key).2 then "?" else "") ∧
      ((optionalKey key).2 = true ↔ ∃ name, key = name ++ "?") := by
  unfold optionalKey
  split
  next rest turned =>
    have whole : key = String.ofList rest.reverse ++ "?" := by
      rw [← String.toList_inj, ← List.reverse_reverse key.toList, turned]
      simp
    exact ⟨whole, iff_of_true rfl ⟨_, whole⟩⟩
  next other =>
    refine ⟨by simp, iff_of_false Bool.false_ne_true ?_⟩
    rintro ⟨name, rfl⟩
    exact other name.toList.reverse (by simp)

/-! ## Types of members -/

/-- The expression that is the type of a node: the node itself, or what it has under its type,
where a list of one entry means that entry. -/
inductive HasExpression : Value → String → Prop
  | token (token : String) : HasExpression (.str token) token
  | typed {es : Entries} {token : String} (h : es.text? "type" = some (.str token)) :
      HasExpression (.map es) token
  | listed {es : Entries} {node : Value} {token : String}
      (h : es.text? "type" = some (.list [node])) (entry : HasExpression node token) :
      HasExpression (.map es) token

/-- Whether a node lists values, or the only entry of its type does. -/
inductive ListsValues : Value → Prop
  | here {es : Entries} (h : es.hasText "enum" = true) : ListsValues (.map es)
  | listed {es : Entries} {node : Value} (h : es.text? "type" = some (.list [node]))
      (entry : ListsValues node) : ListsValues (.map es)

/-- Whether nil is an alternative of the type of a node. -/
def UnitesNil (raw : Value) : Prop := ∃ token, HasExpression raw token ∧ OffersNil token.toList

/-- Whether nil is found in the type of a node. -/
def ReadsNil (raw : Value) : Prop :=
  ¬ ListsValues raw ∧ ∃ token, HasExpression raw token ∧ ShowsNil token.toList

theorem readsNil_str_iff {s : String} : ReadsNil (.str s) ↔ ShowsNil s.toList := by
  constructor
  · rintro ⟨-, token, has, shows_⟩
    cases has
    exact shows_
  · intro shows_
    refine ⟨fun lists => ?_, s, .token s, shows_⟩
    cases lists

section Mapping

variable (noEnum : ¬ es.hasText "enum" = true)
include noEnum

/-- The type of a mapping is the expression that it has under its type. -/
theorem readsNil_map_of_str (typed : es.text? "type" = some (.str token)) :
    ReadsNil (.map es) ↔ ShowsNil token.toList := by
  constructor
  · rintro ⟨-, other, has, shows_⟩
    cases has with
    | typed h =>
        obtain rfl := Value.str.inj (Option.some.inj (h.symm.trans typed))
        exact shows_
    | listed h => cases h.symm.trans typed
  · intro shows_
    refine ⟨fun lists => ?_, token, .typed typed, shows_⟩
    cases lists with
    | here h => exact noEnum h
    | listed h => cases h.symm.trans typed

/-- A list of one entry under the type of a mapping means that entry. -/
theorem readsNil_map_of_list {node : Value} (typed : es.text? "type" = some (.list [node])) :
    ReadsNil (.map es) ↔ ReadsNil node := by
  have same {other : Value} (h : es.text? "type" = some (.list [other])) : other = node :=
    (List.cons.inj (Value.list.inj (Option.some.inj (h.symm.trans typed)))).1
  constructor
  · rintro ⟨lists, token, has, shows_⟩
    refine ⟨fun entry => lists (.listed typed entry), token, ?_, shows_⟩
    cases has with
    | typed h => cases h.symm.trans typed
    | listed h entry => exact same h ▸ entry
  · rintro ⟨lists, token, has, shows_⟩
    refine ⟨fun outer => ?_, token, .listed typed has, shows_⟩
    cases outer with
    | here h => exact noEnum h
    | listed h entry => exact lists (same h ▸ entry)

end Mapping

/-- A mapping without an expression under its type, in a list or not, has no nil in it. -/
theorem not_readsNil_map (noToken : ∀ token, es.text? "type" ≠ some (.str token))
    (noList : ∀ node, es.text? "type" ≠ some (.list [node])) : ¬ ReadsNil (.map es) := by
  rintro ⟨-, token, has, -⟩
  cases has with
  | typed h => exact noToken token h
  | listed h _ => exact noList _ h

/-- What is read off a node is nullable where nil is found in its type. -/
theorem ofNode_nullable_iff (node : Value) : (ofNode node).2 = true ↔ ReadsNil node := by
  have array : ¬ ShowsNil "array".toList := fun shows_ => absurd shows_.2 (by decide)
  -- Along the reading: only a list of one entry passes on what is found further inside, arrays and
  -- enumerations stop it.
  fun_induction ofNode node with
  | case1 token => rw [readsNil_str_iff, parse_nullable_iff]
  | case2 es isEnum =>
      exact iff_of_false Bool.false_ne_true fun reads => reads.1 (.here isEnum)
  | case3 es notEnum token declared isArray node items _ ih =>
      rw [readsNil_map_of_str notEnum declared, beq_iff_eq.mp isArray]
      exact iff_of_false Bool.false_ne_true array
  | case4 es notEnum token declared isArray items _ =>
      rw [readsNil_map_of_str notEnum declared, beq_iff_eq.mp isArray]
      exact iff_of_false Bool.false_ne_true array
  | case5 es notEnum token declared notArray =>
      rw [readsNil_map_of_str notEnum declared, parse_nullable_iff]
  | case6 es notEnum node declared items ih =>
      refine iff_of_false Bool.false_ne_true (not_readsNil_map ?_ ?_)
      · simp [declared]
      · simp [declared]
  | case7 es notEnum node declared items ih =>
      refine iff_of_false Bool.false_ne_true (not_readsNil_map ?_ ?_)
      · simp [declared]
      · simp [declared]
  | case8 es notEnum node declared ih =>
      exact ih.trans (readsNil_map_of_list notEnum declared).symm
  | case9 es notEnum =>
      exact iff_of_false Bool.false_ne_true (not_readsNil_map ‹_› ‹_›)
  | case10 v noText noMap =>
      refine iff_of_false Bool.false_ne_true ?_
      rintro ⟨-, token, has, -⟩
      cases has with
      | token => exact noText _ rfl
      | typed => exact noMap _ rfl
      | listed => exact noMap _ rfl

/-- Where expressions are flat, nil is found if it is offered and no suffix ends the last
alternative. -/
theorem readsNil_iff_of_flat (flat : ∀ token, HasExpression raw token → IsFlat token.toList) :
    ReadsNil raw ↔ ¬ ListsValues raw ∧ ∃ token, HasExpression raw token ∧
      OffersNil token.toList ∧ ¬ ['[', ']'] <:+ trim token.toList := by
  refine and_congr_right fun _ => exists_congr fun token => and_congr_right fun has => ?_
  exact (flat token has).showsNil_iff

/-! ## Members -/

/-- Whether a member may be left out: it says so, or it says nothing about that and its key is
marked. -/
def MayBeMissing (e : Value × Value) : Prop :=
  match e.2.field? "required" with
  | some required => required.isTruthy = false
  | none => IsMarked e.1

/-- Whether a member is promised to be nullable. -/
def PromisesNull (e : Value × Value) : Prop :=
  IsMarked e.1 ∨ (∃ required, e.2.field? "required" = some required ∧ required.isTruthy = false) ∨
    UnitesNil e.2

/-- A promise is kept where the member may be left out, and else where nil is found exactly if
the key is marked or nil is an alternative. -/
theorem promisesNull_iff :
    (MayBeMissing e ∨ ReadsNil e.2 ↔ PromisesNull e) ↔
      MayBeMissing e ∨ (ReadsNil e.2 ↔ IsMarked e.1 ∨ UnitesNil e.2) := by
  by_cases missing : MayBeMissing e
  · have promised : PromisesNull e := by
      unfold MayBeMissing at missing
      split at missing
      next required said => exact .inr (.inl ⟨required, said, missing⟩)
      next => exact .inl missing
    simp only [missing, promised, true_or]
  · have said : ¬ ∃ required, e.2.field? "required" = some required ∧
        required.isTruthy = false := by
      rintro ⟨required, said, falsy⟩
      exact missing (by rw [MayBeMissing, said]; exact falsy)
    simp only [missing, PromisesNull, said, false_or]

/-- What is found in a flat expression is all that is offered, where no values hide it and no
suffix ends it. -/
theorem readsNil_iff_unitesNil (noValues : ¬ ListsValues raw)
    (flat : ∀ token, HasExpression raw token → IsFlat token.toList ∧
      (OffersNil token.toList → ¬ ['[', ']'] <:+ trim token.toList)) :
    ReadsNil raw ↔ UnitesNil raw := by
  rw [readsNil_iff_of_flat fun token has => (flat token has).1, and_iff_right noValues]
  refine exists_congr fun token => and_congr_right fun has => ?_
  exact and_iff_left_of_imp (flat token has).2

/-- A member may be left out if it is not required, where its key tells what is so by default. -/
theorem mayBeMissing_iff (key raw : Value) :
    MayBeMissing (key, raw) ↔
      ((raw.field? "required").map isTruthy).getD (!(optionalKey key.text).2) = false := by
  rw [MayBeMissing]
  cases raw.field? "required" with
  | some required => rfl
  | none =>
      rw [Option.map_none, Option.getD_none, Bool.not_eq_false', (optionalKey_spec key.text).2]
      rfl

theorem property_nullable_iff (key raw : Value) :
    (property true key raw).nullable = true ↔ MayBeMissing (key, raw) ∨ ReadsNil raw := by
  have nil : (ofNode (if raw.isNull then .str "string" else raw)).2 = true ↔ ReadsNil raw := by
    cases raw with
    | null =>
        refine iff_of_false ?_ ?_
        · rw [isNull, if_pos rfl, ofNode_nullable_iff, readsNil_str_iff]
          exact fun shows_ => absurd shows_.2 (by decide)
        · rintro ⟨-, token, has, -⟩
          cases has
    | _ => exact ofNode_nullable_iff _
  have required : (property true key raw).nullable =
      ((ofNode (if raw.isNull then .str "string" else raw)).2 ||
        !((raw.field? "required").map isTruthy).getD (!(optionalKey key.text).2)) := by
    have byKey (marked : Bool) : (if marked then false else true) = !marked := by
      cases marked <;> rfl
    cases raw <;> simp only [property, byKey] <;> rfl
  rw [required, Bool.or_eq_true, nil, mayBeMissing_iff, Bool.not_eq_true', or_comm]

/-- What a property tells about the member that it is read off. -/
structure IsReadOff (e : Value × Value) (p : Property) : Prop where
  /-- The name is the key without its mark. -/
  key : (IsMarked e.1 ∧ e.1.text = p.name ++ "?") ∨ (¬ IsMarked e.1 ∧ e.1.text = p.name)
  nullable : p.nullable = true ↔ MayBeMissing e ∨ ReadsNil e.2
  /-- It keeps the promise of the member in these cases and in no other. -/
  kept : (p.nullable = true ↔ PromisesNull e) ↔
    MayBeMissing e ∨ (ReadsNil e.2 ↔ IsMarked e.1 ∨ UnitesNil e.2)
  /-- In a flat expression nil is found if it is offered and no suffix ends the expression. -/
  flat : (∀ token, HasExpression e.2 token → IsFlat token.toList) →
    (ReadsNil e.2 ↔ ¬ ListsValues e.2 ∧ ∃ token, HasExpression e.2 token ∧
      OffersNil token.toList ∧ ¬ ['[', ']'] <:+ trim token.toList)
  /-- So it keeps the promise of every member with a flat expression, unless that is required
  under a marked key, lists values, or offers nil in front of a last suffix. -/
  plain : (IsMarked e.1 → MayBeMissing e) → ¬ ListsValues e.2 →
    (∀ token, HasExpression e.2 token → IsFlat token.toList ∧
      (OffersNil token.toList → ¬ ['[', ']'] <:+ trim token.toList)) →
    (p.nullable = true ↔ PromisesNull e)

theorem isReadOff_property (e : Value × Value) : IsReadOff e (property true e.1 e.2) := by
  have nullable := property_nullable_iff e.1 e.2
  obtain ⟨whole, marked⟩ := optionalKey_spec e.1.text
  have name : (property true e.1 e.2).name = (optionalKey e.1.text).1 := rfl
  refine ⟨?_, nullable, ?_, readsNil_iff_of_flat, fun mark noValues flat => ?_⟩
  · rw [name]
    cases found : (optionalKey e.1.text).2 with
    | false =>
        refine .inr ⟨fun h => ?_, by simpa [found] using whole⟩
        exact absurd (marked.mpr h) (by simp [found])
    | true => exact .inl ⟨marked.mp found, by simpa [found] using whole⟩
  · rw [nullable]
    exact promisesNull_iff
  · rw [nullable, promisesNull_iff, or_iff_not_imp_left]
    intro needed
    have unmarked : ¬ IsMarked e.1 := fun marked => needed (mark marked)
    rw [readsNil_iff_unitesNil noValues flat, or_iff_right unmarked]

/-- The members of a mapping become properties one by one in its order, each as its member
says. -/
theorem properties_areReadOff (es : Entries) :
    List.Forall₂ IsReadOff es (properties (.map es) true) :=
  List.forall₂_map_right_iff.mpr (List.forall₂_same.mpr fun e _ => isReadOff_property e)

/-- Three members that are promised to be nullable: one that says it is required outright, one
that lists values beside its type, and one whose last alternative is an array. -/
def vainPromises : Entries :=
  [(.str "note?", .map [(.str "type", .str "string"), (.str "required", .bool true)]),
    (.str "mode", .map [(.str "type", .str "string | nil"), (.str "enum", .list [.str "a"])]),
    (.str "sums", .str "nil | Money[]")]

theorem promises_not_kept :
    (∀ e ∈ vainPromises, PromisesNull e) ∧
      (properties (.map vainPromises) true).map (·.nullable) = [false, false, false] := by
  have marked : IsMarked (.str "note?") := ⟨"note", rfl⟩
  have last : " nil".toList ∈ branches 0 "string | nil".toList := by decide
  have first : "nil ".toList ∈ branches 0 "nil | Money[]".toList := by decide
  have lacks {key raw : Value} (needed : ¬ MayBeMissing (key, raw)) (noNil : ¬ ReadsNil raw) :
      (property true key raw).nullable = false :=
    Bool.eq_false_iff.mpr fun h => ((property_nullable_iff key raw).mp h).elim needed noNil
  constructor
  · simp only [vainPromises, List.forall_mem_cons, List.not_mem_nil, false_imp_iff, implies_true,
      and_true]
    refine ⟨.inl marked, .inr (.inr ⟨_, .typed rfl, ?_⟩), .inr (.inr ⟨_, .token _, ?_⟩)⟩
    · exact .alone last (by decide)
    · exact .alone first (by decide)
  · simp only [vainPromises, properties, List.map_cons, List.map_nil, List.cons.injEq, and_true]
    refine ⟨lacks ?_ ?_, lacks ?_ ?_, lacks ?_ ?_⟩
    · rw [mayBeMissing_iff]
      decide
    · rw [readsNil_map_of_str (by decide) rfl]
      exact fun shows_ => absurd shows_.2 (by decide)
    · rw [mayBeMissing_iff]
      decide
    · exact fun reads => reads.1 (.here rfl)
    · rw [mayBeMissing_iff]
      decide
    · rw [readsNil_str_iff]
      exact fun shows_ => shows_.1 (by decide)

end ClientForge.Declaration
