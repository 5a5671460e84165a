import ClientForge.Proofs.Registry

/-!
# A type in a list

Where a declaration gives its type as a list of one entry, it means that entry. The builders see
no difference: they look at the one type that a declaration names, and at what it has under other
keys. Where a reference is read there is no difference either, unless the entry is `array`: its
items are looked for only where the word stands by itself, so that in a list it is an array over
anything.
-/

namespace ClientForge

open ClientForge.Builder ClientForge.Value

/-! ## Writing under a name -/

namespace Value

variable {es : Entries} {key name : String} {v w : Value}

theorem same_str_iff : same v (.str name) = true ↔ v = .str name := by
  cases v <;> simp [same, sameNumber, number?]

theorem Entries.text?_cons_self (name : String) (v : Value) (es : Entries) :
    text? name ((.str name, v) :: es) = some v := by
  simp [text?, get?, same_str_iff.mpr rfl]

theorem Entries.text?_cons_of_ne (other : w ≠ .str name) (v : Value) (es : Entries) :
    text? name ((w, v) :: es) = text? name es := by
  rw [text?, get?, List.find?_cons_of_neg (by simpa [same_str_iff] using other), text?, get?]

theorem Entries.text?_put_self (name : String) (v : Value) (es : Entries) :
    text? name (put (.str name) v es) = some v := by
  induction es with
  | nil => exact text?_cons_self name v []
  | cons e rest ih =>
      rw [put]
      split
      next same => rw [same_str_iff.mp same, text?_cons_self]
      next differs => rw [text?_cons_of_ne (fun eq => differs (same_str_iff.mpr eq)), ih]

theorem Entries.text?_put_of_ne (other : key ≠ name) (v : Value) (es : Entries) :
    text? name (put (.str key) v es) = text? name es := by
  have apart : Value.str key ≠ .str name := fun eq => other (Value.str.inj eq)
  induction es with
  | nil => exact text?_cons_of_ne apart v []
  | cons e rest ih =>
      obtain ⟨k, w⟩ := e
      rw [put]
      split
      next same =>
        obtain rfl := same_str_iff.mp same
        rw [text?_cons_of_ne apart, text?_cons_of_ne apart]
      next =>
        by_cases named : k = .str name
        · rw [named, text?_cons_self, text?_cons_self]
        · rw [text?_cons_of_ne named, text?_cons_of_ne named, ih]

end Value

/-! ## What builders look at -/

namespace Declaration

variable {v w : Value} {name : String} {p : Placed}

/-- Whether two declarations are the same to all builders: both are mappings or none is, they
name the same type, and have the same under every other key. -/
structure Alike (v w : Value) : Prop where
  isMap : v.isMap = w.isMap
  declared : declaredType? v = declaredType? w
  field? (key : String) (other : key ≠ "type") : v.field? key = w.field? key

theorem hasKey_eq (key : String) (v : Value) : Builder.hasKey key v = (v.field? key).isSome := by
  cases v <;> rfl

namespace Alike

variable (alike : Alike v w)
include alike

theorem field (key : String) (other : key ≠ "type") : v.field key = w.field key := by
  rw [Value.field, Value.field, alike.field? key other]

theorem hasKey (key : String) (other : key ≠ "type") :
    Builder.hasKey key v = Builder.hasKey key w := by
  rw [hasKey_eq, hasKey_eq, alike.field? key other]

theorem parent (ignored : List String) : parent? v ignored = parent? w ignored := by
  rw [parent?, parent?, alike.declared]

theorem description : description? v = description? w := by
  have said (v : Value) : description? v =
      (v.field? "description").bind fun d =>
        if d.isNull then none else some (Text.strip d.text) := by
    cases v with
    | map es =>
        rw [description?, entryDescription?, Value.field?]
        cases Entries.text? "description" es with
        | none => rfl
        | some d => cases d <;> rfl
    | _ => rfl
  rw [said, said, alike.field? _ (by decide)]

/-- Builders treat declarations that are alike in the same way. -/
theorem standard (hp : p ∈ Registry.standard.entries) (name : String) :
    p.builder.supports name v = p.builder.supports name w ∧
      p.builder.build name v = p.builder.build name w ∧
      p.builder.texts v = p.builder.texts w := by
  have properties := alike.field "properties" (by decide)
  have parameters := alike.field "queryParameters" (by decide)
  have values := alike.field "enum" (by decide)
  have remark := alike.field "description" (by decide)
  have members := alike.hasKey "properties" (by decide)
  rcases Registry.mem_standard.mp hp with rfl | rfl | rfl | rfl | rfl
  · refine ⟨?_, ?_, ?_⟩
    · simp only [filter, alike.declared, members, alike.hasKey "queryParameters" (by decide)]
    · simp only [filter, properties, parameters, alike.parent, alike.description]
    · simp only [filter, properties, parameters, remark]
  · refine ⟨?_, ?_, ?_⟩
    · simp only [result, alike.isMap, alike.declared]
    · simp only [result, properties, alike.description]
    · simp only [result, properties, remark]
  · refine ⟨?_, ?_, ?_⟩
    · simp only [enumeration, values, alike.declared]
    · simp only [enumeration, values, alike.description]
    · simp only [enumeration, values, remark]
  · refine ⟨?_, rfl, rfl⟩
    have keys : (traitKeys.any fun key => Builder.hasKey key v) =
        traitKeys.any fun key => Builder.hasKey key w := by
      rw [Bool.eq_iff_iff, List.any_eq_true, List.any_eq_true]
      refine exists_congr fun key => and_congr_right fun hk => ?_
      rw [alike.hasKey key (ne_of_mem_of_not_mem hk (by decide))]
    simp only [trait, alike.isMap, members, keys]
  · refine ⟨?_, ?_, ?_⟩
    · simp only [object, members, alike.declared, alike.parent]
    · simp only [object, properties, alike.parent, alike.description]
    · simp only [object, properties, remark]

end Alike

/-! ## One entry -/

variable {es : Entries} {token : String}

/-- A mapping with its type in a list. -/
def listing (token : String) (es : Entries) : Entries :=
  es.put (.str "type") (.list [.str token])

/-- The items of a mapping, or anything. -/
def itemsOf (es : Entries) : Reference :=
  ((es.text? "items").bind fun items => (TypeExpr.ofNode items).1).getD (.scalar .any)

theorem alike_listing (typed : es.text? "type" = some (.str token)) :
    Alike (.map (listing token es)) (.map es) where
  isMap := rfl
  declared := by
    rw [declaredType?, declaredType?, listing, Entries.text?_put_self, typed]
  field? _ other := Entries.text?_put_of_ne other.symm _ es

/-- Whether a mapping is an array whose items have a shape, which is not looked for where its
type stands in a list. -/
structure HidesItems (token : String) (es : Entries) : Prop where
  noEnum : es.hasText "enum" = false
  array : token = "array"
  items : itemsOf es ≠ .scalar .any

/-- Under a list of one entry that entry is read, whatever stands beside it. -/
theorem ofNode_of_list {node : Value} (typed : es.text? "type" = some (.list [node]))
    (noEnum : es.hasText "enum" = false) :
    TypeExpr.ofNode (.map es) = TypeExpr.ofNode node := by
  conv => lhs; rw [TypeExpr.ofNode, if_neg (by simp [noEnum])]
  split
  next declared => cases declared.symm.trans typed
  next declared _ => cases declared.symm.trans typed
  next declared _ => cases declared.symm.trans typed
  next declared =>
    obtain ⟨rfl, -⟩ := List.cons.inj (Value.list.inj (Option.some.inj (declared.symm.trans typed)))
    rfl
  next noList _ _ => exact (noList _ typed).elim

/-- Under a word the word is read, and `array` together with the items. -/
theorem ofNode_of_str (typed : es.text? "type" = some (.str token))
    (noEnum : es.hasText "enum" = false) :
    TypeExpr.ofNode (.map es) =
      if token = "array" then (some (.array (itemsOf es)), false)
      else TypeExpr.ofNode (.str token) := by
  conv => lhs; rw [TypeExpr.ofNode, if_neg (by simp [noEnum])]
  split
  next declared =>
    obtain rfl := Value.str.inj (Option.some.inj (declared.symm.trans typed))
    split
    next isArray =>
      rw [if_pos (beq_iff_eq.mp isArray)]
      split
      next there _ =>
        rw [itemsOf, there]
        rfl
      next missing _ =>
        rw [itemsOf, missing]
        rfl
    next notArray => rw [if_neg (by simpa using notArray), TypeExpr.ofNode]
  next declared _ => cases declared.symm.trans typed
  next declared _ => cases declared.symm.trans typed
  next declared => cases declared.symm.trans typed
  next noToken _ _ _ => exact (noToken _ typed).elim

/-- A mapping is read the same with its type in a list, unless that hides its items. -/
theorem ofNode_listing_iff (typed : es.text? "type" = some (.str token)) :
    TypeExpr.ofNode (.map (listing token es)) = TypeExpr.ofNode (.map es) ↔
      ¬ HidesItems token es := by
  have listed : (listing token es).text? "type" = some (.list [.str token]) :=
    Entries.text?_put_self _ _ es
  have kept : (listing token es).hasText "enum" = es.hasText "enum" := by
    rw [Entries.hasText, Entries.hasText, listing, Entries.text?_put_of_ne (by decide)]
  cases enum : es.hasText "enum" with
  | true =>
      rw [TypeExpr.ofNode, TypeExpr.ofNode, kept, if_pos enum, if_pos enum]
      exact iff_of_true rfl fun hides => by simp [hides.noEnum] at enum
  | false =>
      -- In the list the word stands alone; outside of it only `array` looks beside itself.
      rw [ofNode_of_list listed (kept.trans enum), ofNode_of_str typed enum]
      by_cases array : token = "array"
      · have alone : TypeExpr.ofNode (.str token) = (some (.array (.scalar .any)), false) := by
          rw [array, TypeExpr.ofNode]
          decide
        rw [if_pos array, alone]
        constructor
        · intro same hides
          injection same with same
          injection Option.some.inj same with _ _ same
          exact hides.items same.symm
        · intro shown
          have anything : itemsOf es = .scalar .any :=
            Decidable.not_not.mp fun shaped => shown ⟨enum, array, shaped⟩
          rw [anything]
      · rw [if_neg array]
        exact iff_of_true rfl fun hides => array hides.array

/-- A type in a list means its entry to all builders, and in a reference unless that hides
items. -/
theorem listing_iff (typed : es.text? "type" = some (.str token)) :
    (TypeExpr.ofNode (.map (listing token es)) = TypeExpr.ofNode (.map es) ↔
      ¬ HidesItems token es) ∧
    ∀ p ∈ Registry.standard.entries, ∀ name : String,
      p.builder.supports name (.map (listing token es)) = p.builder.supports name (.map es) ∧
      p.builder.build name (.map (listing token es)) = p.builder.build name (.map es) ∧
      p.builder.texts (.map (listing token es)) = p.builder.texts (.map es) :=
  ⟨ofNode_listing_iff typed, fun _ hp name => (alike_listing typed).standard hp name⟩

/-- A sum of money, with its type in a list or not. -/
theorem money_listing :
    TypeExpr.ofNode (.map (listing "Money | nil" [(.str "type", .str "Money | nil")])) =
        TypeExpr.ofNode (.map [(.str "type", .str "Money | nil")]) ∧
      object.build "Sum" (.map (listing "Money | nil" [(.str "type", .str "Money | nil")])) =
        object.build "Sum" (.map [(.str "type", .str "Money | nil")]) := by
  have typed : Entries.text? "type" [(.str "type", .str "Money | nil")] =
      some (.str "Money | nil") := rfl
  obtain ⟨reference, builders⟩ := listing_iff typed
  refine ⟨reference.mpr fun hides => absurd hides.array (by decide), ?_⟩
  exact (builders ⟨.int 500, object⟩ (by simp [Registry.standard]) "Sum").2.1

/-- An array of sums of money, which is one over anything when its type is put in a list. -/
theorem items_hidden_in_list :
    let sums : Entries := [(.str "type", .str "array"), (.str "items", .str "Money")]
    TypeExpr.ofNode (.map sums) = (some (.array (.named "Money")), false) ∧
      TypeExpr.ofNode (.map (listing "array" sums)) = (some (.array (.scalar .any)), false) := by
  intro sums
  have items : sums.text? "items" = some (.str "Money") := rfl
  constructor
  · rw [ofNode_of_str rfl rfl, if_pos rfl, itemsOf, items, Option.bind_some, TypeExpr.ofNode]
    decide
  · rw [ofNode_of_list rfl rfl, TypeExpr.ofNode]
    decide

end Declaration

end ClientForge
