import ClientForge.Proofs.Lookup
import ClientForge.Proofs.Rendering

/-!
# One more definition

Rendering looks definitions up by name and never asks for one that it was not given. An
index that finds more than another therefore renders every entity and every client alike,
as long as it finds the same under the names that the other one knows. A definition under
a new name, put anywhere between the others, extends the index in this way: its own file
comes in at its place, and no other file changes but the module that exports all classes.
-/

namespace ClientForge.Emission

open ClientForge.Outcome

variable {index more : Index} {l : Language} {e : Emitter}

/-- One index embeds in another that finds whatever the first one finds. -/
def Index.Embeds (index more : Index) : Prop :=
  ∀ ⦃name d⦄, index.get? name = some d → more.get? name = some d

/-- A definition under a new name hides none of the others, wherever it stands. -/
theorem Index.embeds_insert {before after : Index} {d : Definition}
    (fresh : ∀ c ∈ before ++ after, c.name ≠ d.name) :
    Index.Embeds (before ++ after) (before ++ d :: after) := by
  intro name c found
  have named : c.name = name := (mem_of_get?_eq_some found).2
  have other : (d.name == name) = false := by
    have differs := fresh c (mem_of_get?_eq_some found).1
    rw [beq_eq_false_iff_ne, ← named]
    exact Ne.symm differs
  rw [get?, List.reverse_append, List.find?_append] at found
  rw [get?, List.reverse_append, List.reverse_cons, List.append_assoc, List.find?_append,
    List.singleton_append, List.find?_cons, other]
  exact found

namespace Index.Embeds

variable (embeds : Index.Embeds index more)
include embeds

theorem carries_kindOf (name : String) : Carries (index.kindOf name) (more.kindOf name) := by
  intro kind given
  cases found : index.get? name with
  | none => simp [kindOf, found, misused] at given
  | some d =>
      rw [kindOf, found] at given
      rw [kindOf, embeds found]
      exact given

theorem carries_conversion (r : Reference) : Carries (conversion index r) (conversion more r) := by
  rw [conversion, conversion]
  split
  · exact .refl _
  · exact .bind (embeds.carries_kindOf _) fun kind _ => .refl _

theorem carries_plainDocType (qualified : Bool) (kind : ReferenceKind) (name : String) :
    Carries (plainDocType l index qualified kind name)
      (plainDocType l more qualified kind name) := by
  rw [plainDocType, plainDocType]
  split
  · exact .refl _
  · exact .bind (embeds.carries_kindOf name) fun kind _ => .refl _

theorem carries_docType (qualified : Bool) (r : Reference) :
    Carries (docType l index qualified r) (docType l more qualified r) := by
  induction r with
  | leaf kind name =>
      cases kind with
      | array => exact .refl _
      | scalar => exact embeds.carries_plainDocType qualified .scalar name
      | type => exact embeds.carries_plainDocType qualified .type name
  | holding kind name items ih =>
      cases kind with
      | array => exact .bind ih fun inner _ => .refl _
      | scalar => exact embeds.carries_plainDocType qualified .scalar name
      | type => exact embeds.carries_plainDocType qualified .type name

theorem carries_propertyView (p : Property) :
    Carries (propertyView l index p) (propertyView l more p) :=
  .bind (embeds.carries_conversion _) fun _ _ =>
    .bind (embeds.carries_docType _ _) fun _ _ => .refl _

theorem carries_itemView (d : Definition) :
    Carries (itemView l index d) (itemView l more d) := by
  rw [itemView, itemView]
  split
  · exact .bind (embeds.carries_conversion _) fun _ _ =>
      .bind (embeds.carries_docType _ _) fun _ _ => .refl _
  · exact .refl _

theorem carries_entityView (d : Definition) :
    Carries (entityView l index d) (entityView l more d) :=
  .bind (.mapM embeds.carries_propertyView d.properties) fun _ _ =>
    .bind (embeds.carries_itemView d) fun _ _ => .refl _

theorem carries_entitySource (d : Definition) :
    Carries (entitySource e index d) (entitySource e more d) :=
  .bind (embeds.carries_entityView d) fun _ _ => .refl _

theorem carries_bodyView (parameters : List String) (r : Reference) :
    Carries (bodyView l index parameters r) (bodyView l more parameters r) :=
  .bind (embeds.carries_docType _ _) fun _ _ =>
    .bind (embeds.carries_conversion _) fun _ _ => .refl _

/-- The key of a result's items comes from the definition that was found. -/
theorem carries_replyOf (r : Reference) : Carries (replyOf index r) (replyOf more r) := by
  refine .bind (embeds.carries_conversion r) fun c _ => ?_
  cases c with
  | entity cls =>
      refine .bind (embeds.carries_kindOf r.name) fun kind known => ?_
      cases found : index.get? r.name with
      | none => simp [kindOf, found, misused] at known
      | some d =>
          rw [embeds found]
          exact .refl _
  | _ => exact .refl _

theorem carries_requestView (a : Action) :
    Carries (requestView l index a) (requestView l more a) := by
  rw [requestView, requestView]
  split
  next r asked => exact .map (embeds.carries_bodyView _ r)
  next => exact .refl _

theorem carries_responseView (a : Action) :
    Carries (responseView l index a) (responseView l more a) := by
  rw [responseView, responseView]
  split
  next r answered =>
    exact .bind (embeds.carries_replyOf r) fun _ _ =>
      .bind (embeds.carries_docType true r) fun _ _ => .refl _
  next => exact .refl _

theorem carries_actionView (a : Action) :
    Carries (actionView l index a) (actionView l more a) := by
  rw [actionView_eq, actionView_eq]
  exact .bind (embeds.carries_requestView a) fun _ _ =>
    .bind (embeds.carries_responseView a) fun _ _ => .refl _

theorem carries_methodViews (taken : Taken) (actions : List Action) :
    Carries (methodViews l index taken actions) (methodViews l more taken actions) := by
  induction actions generalizing taken with
  | nil => exact .refl _
  | cons a rest ih =>
      exact .bind (embeds.carries_actionView a) fun v _ => .bind (ih _) fun _ _ => .refl _

theorem carries_clientSource (client : String) (actions : List Action) :
    Carries (clientSource e index client actions) (clientSource e more client actions) := by
  refine .bind ?_ fun v _ => .refl _
  exact .bind (embeds.carries_methodViews [] actions) fun _ _ => .refl _

end Index.Embeds

/-- A package's own files do not depend on the definitions, but for the one that exports
them. -/
theorem mem_supportFiles {clients : List String} {support support' : Tree} {path : String}
    {file : SourceFile} (made : supportFiles e index clients = .ok support)
    (made' : supportFiles e more clients = .ok support') (h : (path, file) ∈ support)
    (other : ¬(e.language = .javascript ∧ path = "src/index.js")) : (path, file) ∈ support' := by
  unfold supportFiles at made made'
  cases l : e.language with
  | javascript =>
      rw [l] at made made' other
      obtain ⟨name, named, made⟩ := bind_eq_ok.mp made
      obtain ⟨-, -, made⟩ := bind_eq_ok.mp made
      obtain rfl := Except.ok.inj made
      rw [named, ok_bind] at made'
      obtain ⟨-, -, made'⟩ := bind_eq_ok.mp made'
      obtain rfl := Except.ok.inj made'
      simp only [true_and] at other
      simpa [other] using h
  | php =>
      rw [l] at made made'
      obtain rfl := Except.ok.inj (made.symm.trans made')
      exact h

section Insertion

theorem isEntity_rightUnique : Relator.RightUnique (IsEntity e index) := by
  rintro d entry entry' ⟨path, source⟩ ⟨path', source'⟩
  exact Prod.ext (path.trans path'.symm) (Except.ok.inj (source.symm.trans source'))

theorem isClient_rightUnique : Relator.RightUnique (IsClient e index) := by
  rintro group entry entry' ⟨-, path, source⟩ ⟨-, path', source'⟩
  exact Prod.ext (path.trans path'.symm) (Except.ok.inj (source.symm.trans source'))

variable {before after : List Definition} {d : Definition} {actions : List Action}

theorem insertIdx_append {α : Type} (first rest : List α) (a : α) :
    (first ++ rest).insertIdx first.length a = first ++ a :: rest := by
  induction first with
  | nil => rfl
  | cons b first ih => rw [List.cons_append, List.length_cons, List.insertIdx_succ_cons, ih]; rfl

/-- The files of the definitions around a new one stay as they are. -/
theorem entities_insert {entities entities' : Tree}
    (fresh : ∀ c ∈ before ++ after, c.name ≠ d.name)
    (without : List.Forall₂ (IsEntity e (before ++ after)) (before ++ after) entities)
    (inserted : List.Forall₂ (IsEntity e (before ++ d :: after)) (before ++ d :: after) entities') :
    ∃ first entry rest, first.length = before.length ∧ entities = first ++ rest ∧
      entities' = first ++ entry :: rest ∧ entry.1 = Naming.entityFile e.language d.name := by
  have alike (c : Definition) (entry : String × SourceFile) :
      IsEntity e (before ++ after) c entry → IsEntity e (before ++ d :: after) c entry :=
    And.imp_right ((Index.embeds_insert fresh).carries_entitySource c entry.2)
  have first : List.Forall₂ (IsEntity e (before ++ d :: after)) before
      (entities.take before.length) := by
    have kept := (List.forall₂_take before.length without).imp alike
    rwa [List.take_left] at kept
  have rest : List.Forall₂ (IsEntity e (before ++ d :: after)) after
      (entities.drop before.length) := by
    have kept := (List.forall₂_drop before.length without).imp alike
    rwa [List.drop_left] at kept
  obtain ⟨entry, -, own⟩ := exists_zip_left inserted (a := d) (by simp)
  refine ⟨_, entry, _, ?_, (List.take_append_drop before.length entities).symm, ?_, own.1⟩
  · exact first.length_eq.symm
  · exact List.right_unique_forall₂' isEntity_rightUnique inserted
      (List.rel_append first (.cons own rest))

/-- An unrelated definition adds its own file, at its place, and no other file of the tree
changes, but for the module that exports all classes. -/
theorem render_insert_definition {tree tree' : Tree}
    (fresh : ∀ c ∈ before ++ after, c.name ≠ d.name)
    (without : render e (before ++ after) actions = .ok tree)
    (inserted : render e (before ++ d :: after) actions = .ok tree') :
    (∀ path file, Table.get? path tree = some file →
      ¬(e.language = .javascript ∧ path = "src/index.js") →
        Table.get? path tree' = some file) ∧
      Naming.entityFile e.language d.name ∉ Table.names tree ∧
      Table.names tree' =
        (Table.names tree).insertIdx before.length (Naming.entityFile e.language d.name) := by
  obtain ⟨-, entities, clients, support, rfl, parts⟩ := render_eq_ok.mp without
  obtain ⟨-, entities', clients', support', rfl, parts'⟩ := render_eq_ok.mp inserted
  have embeds := Index.embeds_insert fresh
  obtain ⟨first, entry, rest, place, rfl, rfl, own⟩ :=
    entities_insert fresh parts.entity parts'.entity
  obtain rfl : clients = clients' := by
    refine List.right_unique_forall₂' isClient_rightUnique ?_ parts'.client
    refine parts.client.imp fun group entry client => ?_
    exact client.imp_right (And.imp_right (embeds.carries_clientSource _ _ _))
  have names : Table.names (first ++ entry :: rest ++ clients ++ support') =
      (Table.names (first ++ rest ++ clients ++ support)).insertIdx before.length
        (Naming.entityFile e.language d.name) := by
    simp only [Table.names_append, Table.names_cons, own, names_supportFiles parts.others,
      names_supportFiles parts'.others, List.append_assoc, List.cons_append]
    have length : before.length = (Table.names first).length := by simp [Table.names, place]
    rw [length, insertIdx_append]
  refine ⟨?_, ?_, names⟩
  · intro path file found other
    have kept : (path, file) ∈ first ++ entry :: rest ++ clients ++ support' := by
      have there := Table.mem_of_get?_eq_some found
      simp only [List.mem_append, List.mem_cons] at there ⊢
      rcases there with (entity | client) | others
      · exact .inl (.inl (entity.imp_right .inr))
      · exact .inl (.inr client)
      · exact .inr (mem_supportFiles parts.others parts'.others others other)
    exact Table.get?_eq_some_of_mem parts'.once kept
  · have once := parts'.once
    rw [names] at once
    have perm := List.perm_insertIdx (Naming.entityFile e.language d.name)
      (Table.names (first ++ rest ++ clients ++ support)) (i := before.length) (by
        simp [Table.names, place])
    exact (List.nodup_cons.mp (perm.nodup_iff.mp once)).1

/-- A transfer that extends one of the types around it and holds the other one takes its
place between them, and their client stays as it is. -/
theorem transfer_joins_package : ∃ tree tree',
    render ⟨⟨.javascript, .str "", .str "bank", .null⟩, .str "common", .str "", .str "1", true⟩
      ([{ name := "Entry" }] ++ [{ name := "Money" }])
      [{ path := "/sums", responseType := some (.array (.named "Money")) }] = .ok tree ∧
    render ⟨⟨.javascript, .str "", .str "bank", .null⟩, .str "common", .str "", .str "1", true⟩
      ([{ name := "Entry" }] ++ { name := "Transfer", parent := some "Entry", properties :=
        [⟨"sum", "Money", .named "Money", false, none⟩] } :: [{ name := "Money" }])
      [{ path := "/sums", responseType := some (.array (.named "Money")) }] = .ok tree' ∧
    Table.names tree' = ["src/entity/Entry.js", "src/entity/Transfer.js", "src/entity/Money.js",
      "src/service/TransferClient.js", "src/service/DateFactory.js", "src/index.js",
      "package.json"] ∧
    ∀ path file, Table.get? path tree = some file →
      ¬(Language.javascript = .javascript ∧ path = "src/index.js") →
        Table.get? path tree' = some file := by
  have without : render
      ⟨⟨.javascript, .str "", .str "bank", .null⟩, .str "common", .str "", .str "1", true⟩
      ([{ name := "Entry" }] ++ [{ name := "Money" }])
      [{ path := "/sums", responseType := some (.array (.named "Money")) }] = .ok _ := rfl
  have inserted : render
      ⟨⟨.javascript, .str "", .str "bank", .null⟩, .str "common", .str "", .str "1", true⟩
      ([{ name := "Entry" }] ++ { name := "Transfer", parent := some "Entry", properties :=
        [⟨"sum", "Money", .named "Money", false, none⟩] } :: [{ name := "Money" }])
      [{ path := "/sums", responseType := some (.array (.named "Money")) }] = .ok _ := rfl
  obtain ⟨kept, -, names⟩ := render_insert_definition (by decide) without inserted
  exact ⟨_, _, without, inserted, names, kept⟩

end Insertion

end ClientForge.Emission
