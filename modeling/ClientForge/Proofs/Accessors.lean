import ClientForge.Proofs.AppliedTrait
import ClientForge.Proofs.Emitted

/-!
# Accessors

The class of an entity has two accessors for each of its properties, one that reads it and one
that writes it. Their names come from the name of the property alone: its words set together,
with `get` or `is` before them in one and with `set` in the other. The properties are the
members of a declaration without their question marks, in a filter those of two mappings. So
the accessors of a class are distinct exactly if no two members of the declaration have the same
words when these are set together. Otherwise a class has two methods of one name, of which the
later one is the method.
-/

namespace ClientForge

namespace Naming

variable {name more : String} {r s : Reference}

/-! ## Names of accessors -/

/-- A reading accessor is no writing one. -/
theorem getter_ne_setter (name more : String) (r : Reference) : getter name r ≠ setter more := by
  intro same
  have heads := congrArg (·.toList.head?) same
  cases boolean : isBoolean r <;> simp [getter, setter, boolean] at heads

theorem pascal_eq_of_getter_eq (same : getter name r = getter more s) :
    pascal name = pascal more := by
  unfold getter at same
  by_cases both : isBoolean r = isBoolean s
  · rw [both] at same
    exact (String.append_right_inj _).mp same
  · have heads := congrArg (·.toList.head?) same
    cases first : isBoolean r <;> cases second : isBoolean s <;> simp [first, second] at heads both

theorem setter_eq_iff : setter name = setter more ↔ pascal name = pascal more :=
  String.append_right_inj "set"

end Naming

namespace Property

variable {p q : Property}

/-- The accessors that a property is given: one to read it, one to write it. -/
def accessors (p : Property) : List String :=
  [Naming.getter p.name p.reference, Naming.setter p.name]

theorem nodup_accessors (p : Property) : p.accessors.Nodup := by
  simp [accessors, Naming.getter_ne_setter]

/-- Two properties share no accessor exactly if their names differ when set together. -/
theorem disjoint_accessors_iff :
    p.accessors.Disjoint q.accessors ↔ Naming.pascal p.name ≠ Naming.pascal q.name := by
  constructor
  · intro disjoint same
    have shared : Naming.setter p.name ∈ q.accessors :=
      Naming.setter_eq_iff.mpr same ▸ List.mem_cons_of_mem _ List.mem_cons_self
    exact disjoint (List.mem_cons_of_mem _ List.mem_cons_self) shared
  · intro other accessor first second
    simp only [accessors, List.mem_cons, List.not_mem_nil, or_false] at first second
    rcases first with rfl | rfl
    · rcases second with same | same
      · exact other (Naming.pascal_eq_of_getter_eq same)
      · exact Naming.getter_ne_setter _ _ _ same
    · rcases second with same | same
      · exact Naming.getter_ne_setter _ _ _ same.symm
      · exact other (Naming.setter_eq_iff.mp same)

end Property

/-- The accessors of some properties are distinct exactly if the names of the properties are
when set together. -/
theorem nodup_accessors_iff {properties : List Property} :
    (properties.flatMap (·.accessors)).Nodup ↔
      (properties.map (·.name)).Pairwise fun name more =>
        Naming.pascal name ≠ Naming.pascal more := by
  rw [List.nodup_flatMap, List.pairwise_map]
  simp only [Property.nodup_accessors, implies_true, true_and]
  exact List.Pairwise.iff fun _ _ => Property.disjoint_accessors_iff

/-! ## Members of a declaration -/

namespace Declaration

/-- The entries of a mapping; anything else has none. -/
def entriesOf (node : Value) : Value.Entries := (Builder.entries? node).getD []

/-- The name of a member: its key without a question mark. -/
def memberName (e : Value × Value) : String := (optionalKey e.1.text).1

theorem properties_eq (node : Value) (requiredByDefault : Bool) :
    properties node requiredByDefault =
      (entriesOf node).map fun e => property requiredByDefault e.1 e.2 := by
  cases node <;> rfl

/-- The names of the members that become properties of a definition of a kind: in a filter
those of two mappings, in a result all but the first list. -/
def memberNames (declaration : Value) : TypeKind → List String
  | .object => (entriesOf (declaration.field "properties")).map memberName
  | .result =>
    (Builder.eraseFirst (fun e => (property true e.1 e.2).reference.isArray)
      (entriesOf (declaration.field "properties"))).map memberName
  | .filter =>
    (entriesOf (declaration.field "properties")).map memberName ++
      (entriesOf (declaration.field "queryParameters")).map memberName
  | .enum => []

end Declaration

theorem Builder.eraseFirst_map {α β : Type} (f : α → β) (p : β → Bool) (xs : List α) :
    eraseFirst p (xs.map f) = (eraseFirst (fun x => p (f x)) xs).map f := by
  induction xs with
  | nil => rfl
  | cons x rest ih =>
      rw [List.map_cons, eraseFirst, eraseFirst]
      split
      · rfl
      · rw [ih, List.map_cons]

open Declaration in
/-- The properties of what a standard builder makes are the members of the declaration. -/
theorem Registry.names_of_standard {p : Placed} {name : String} {declaration : Value}
    {d : Definition} (hp : p ∈ standard.entries)
    (made : p.builder.build name declaration = some d) :
    d.properties.map (·.name) = memberNames declaration d.kind := by
  rcases mem_standard.mp hp with rfl | rfl | rfl | rfl | rfl
  · obtain rfl := Option.some.inj made
    simp only [properties_eq, List.map_append, List.map_map]
    rfl
  · obtain ⟨items, -, made⟩ := Option.bind_eq_some_iff.mp made
    obtain rfl := Option.some.inj made
    simp only [properties_eq, Builder.eraseFirst_map, List.map_map]
    rfl
  · obtain rfl := Option.some.inj made
    rfl
  · cases made
  · obtain rfl := Option.some.inj made
    simp only [properties_eq, List.map_map]
    rfl

/-! ## Classes -/

namespace Emission

open ClientForge.Outcome ClientForge.Declaration

variable {l : Language} {index : Index} {d : Definition} {v : EntityView} {e : Emitter}
  {file : SourceFile}

/-- The accessors of a class in their order, each with its body. -/
def EntityView.accessors (v : EntityView) : Table Body :=
  v.properties.flatMap fun p =>
    [(p.getter, .reading p.key p.conversion),
      (p.setter, .writing p.key p.variableName p.conversion)]

/-- The accessors in the file of a definition; an enumeration has none. -/
def SourceFile.accessors : SourceFile → Table Body
  | javascript (.entity _ v) => v.accessors
  | php (.entity _ _ v) => v.accessors
  | _ => []

theorem IsEntityView.names_accessors (view : IsEntityView l index d v) :
    Table.names v.accessors = d.properties.flatMap (·.accessors) := by
  have members := view.properties
  unfold EntityView.accessors
  generalize d.properties = properties, v.properties = views at members
  induction members with
  | nil => rfl
  | cons viewed _ ih =>
      have member := isPropertyView viewed
      rw [List.flatMap_cons, List.flatMap_cons, Table.names_append, ih, Property.accessors,
        ← member.getter, ← member.setter]
      rfl

theorem names_accessors_of_entitySource (source : entitySource e index d = .ok file) :
    Table.names file.accessors =
      if d.kind = .enum then [] else d.properties.flatMap (·.accessors) := by
  obtain ⟨v, view, rfl | ⟨space, rfl⟩⟩ := exists_view_of_entitySource source
  · rw [← view.names_accessors]
    split <;> rfl
  · rw [← view.names_accessors]
    split <;> rfl

/-- The members of a declaration that become properties differ when their names are set
together. -/
def MembersApart (declaration : Value) (kind : TypeKind) : Prop :=
  (memberNames declaration kind).Pairwise fun name more =>
    Naming.pascal name ≠ Naming.pascal more

instance (declaration : Value) (kind : TypeKind) : Decidable (MembersApart declaration kind) :=
  inferInstanceAs (Decidable (List.Pairwise _ _))

/-- The accessors in the file of a definition that a standard builder made are distinct exactly
if the members of its declaration are told apart. Exactly then the methods by their names, of
which a later one replaces an earlier one, are all of them. -/
theorem accessors_nodup_iff {declared : String × Value} {base : Bool}
    (made : Catalog.built? .standard declared = some d)
    (source : entitySource e index (Catalog.marked base d) = .ok file) :
    ((Table.names file.accessors).Nodup ↔ MembersApart declared.2 d.kind) ∧
      (Table.ofList file.accessors = file.accessors ↔ MembersApart declared.2 d.kind) := by
  obtain ⟨b, found, made⟩ := Option.bind_eq_some_iff.mp made
  obtain ⟨p, hp, rfl, -⟩ := Registry.firstMatch_eq_some found
  have members := Registry.names_of_standard hp made
  have names := names_accessors_of_entitySource source
  have apart : (Table.names file.accessors).Nodup ↔ MembersApart declared.2 d.kind := by
    rw [names, Catalog.marked_kind, MembersApart, ← members]
    split
    next enum =>
      rw [members, enum]
      exact iff_of_true List.nodup_nil List.Pairwise.nil
    next => exact nodup_accessors_iff
  exact ⟨apart, Table.ofList_eq_self_iff.trans apart⟩

/-- A filter takes its accessors from two mappings. -/
theorem filter_accessors_nodup : ∃ d file,
    Catalog.built? .standard ("OwnFilter", .map [
      (.str "properties", .map [(.str "created_at?", .str "datetime")]),
      (.str "queryParameters", .map [(.str "is-open", .str "boolean")])]) = some d ∧
    entitySource ⟨⟨.php, .str "", .str "shop", .null⟩, .str "Common", .str "", .str "1", true⟩ []
      (Catalog.marked true d) = .ok file ∧
    Table.names file.accessors = ["getCreatedAt", "setCreatedAt", "isIsOpen", "setIsOpen"] ∧
    ((Table.names file.accessors).Nodup ↔ MembersApart (.map [
      (.str "properties", .map [(.str "created_at?", .str "datetime")]),
      (.str "queryParameters", .map [(.str "is-open", .str "boolean")])]) d.kind) ∧
    (Table.ofList file.accessors = file.accessors ↔ MembersApart (.map [
      (.str "properties", .map [(.str "created_at?", .str "datetime")]),
      (.str "queryParameters", .map [(.str "is-open", .str "boolean")])]) d.kind) := by
  have made : Catalog.built? .standard ("OwnFilter", .map [
      (.str "properties", .map [(.str "created_at?", .str "datetime")]),
      (.str "queryParameters", .map [(.str "is-open", .str "boolean")])]) =
    some {
      name := "OwnFilter"
      kind := .filter
      properties := [⟨"created_at", "datetime", .scalar .datetime, true, none⟩,
        ⟨"is-open", "boolean", .scalar .boolean, true, none⟩] } := by
    decide +kernel
  have source : entitySource
      ⟨⟨.php, .str "", .str "shop", .null⟩, .str "Common", .str "", .str "1", true⟩ []
      (Catalog.marked true {
        name := "OwnFilter"
        kind := .filter
        properties := [⟨"created_at", "datetime", .scalar .datetime, true, none⟩,
          ⟨"is-open", "boolean", .scalar .boolean, true, none⟩] }) = .ok _ := rfl
  exact ⟨_, _, made, source, by decide, accessors_nodup_iff made source⟩

/-- Two members that differ in the style of their names are one in a class: what reads and
writes the first of them is lost. -/
theorem accessors_replaced : ∃ d file,
    Catalog.built? .standard ("Order", .map [(.str "properties", .map
      [(.str "created_at", .str "string"), (.str "createdAt", .str "integer")])]) = some d ∧
    entitySource
      ⟨⟨.javascript, .str "", .str "shop", .null⟩, .str "common", .str "", .str "1", true⟩ []
      d = .ok file ∧
    Table.names file.accessors = ["getCreatedAt", "setCreatedAt", "getCreatedAt", "setCreatedAt"] ∧
    Table.ofList file.accessors = [("getCreatedAt", .reading "createdAt" .plain),
      ("setCreatedAt", .writing "createdAt" "createdAt" .plain)] := by
  have made : Catalog.built? .standard ("Order", .map [(.str "properties", .map
      [(.str "created_at", .str "string"), (.str "createdAt", .str "integer")])]) =
    some {
      name := "Order"
      properties := [⟨"created_at", "string", .scalar .string, false, none⟩,
        ⟨"createdAt", "integer", .scalar .integer, false, none⟩] } := by
    decide +kernel
  exact ⟨_, _, made, rfl, by decide, by decide⟩

end Emission

end ClientForge
