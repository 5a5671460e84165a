import ClientForge.Emission.Tree
import ClientForge.Proofs.Specification

/-!
# Look-ups while rendering

Views look types up by name on several ways: the innermost element decides about the
conversion, the outer name about the reply, and the documented type follows the items
one by one. For a well-formed reference all of these lead to the one type that it
names, or to none. So where that type is defined, no look-up misses, and whatever else
can go wrong in a file is no missing name.
-/

namespace ClientForge

/-- The failures that a missing name leads to. -/
inductive Failure.Misses : Failure → Prop
  | lookup : Misses (.misuse .unknownName)
  | reference (missing referencedBy : String) (l : Language) :
      Misses (.unresolved missing referencedBy l)

@[simp] theorem Failure.misses_misuse {cause : Misuse} :
    (Failure.misuse cause).Misses ↔ cause = .unknownName := by
  constructor
  · rintro ⟨⟩
    rfl
  · rintro rfl
    exact .lookup

@[simp] theorem Failure.not_misses_emission (fault : EmissionFault) :
    ¬ (Failure.emission fault).Misses := nofun

namespace Emission

open ClientForge.Outcome

variable {index : Index} {l : Language} {r : Reference}

namespace Index

variable {name : String}

theorem get?_eq_none_iff : index.get? name = none ↔ name ∉ index.map (·.name) := by
  rw [get?, List.find?_eq_none]
  simp

@[simp] theorem has_iff : index.has name = true ↔ name ∈ index.map (·.name) := by
  rw [has, Option.isSome_iff_ne_none, ne_eq, get?_eq_none_iff, not_not]

@[simp] theorem has_eq_false_iff : index.has name = false ↔ name ∉ index.map (·.name) := by
  rw [← has_iff, Bool.not_eq_true]

/-- What a look-up finds stands in the index under the name. -/
theorem mem_of_get?_eq_some {d : Definition} (h : index.get? name = some d) :
    d ∈ index ∧ d.name = name :=
  ⟨List.mem_reverse.mp (List.mem_of_find?_eq_some h), by simpa using List.find?_some h⟩

theorem exists_kindOf (h : name ∈ index.map (·.name)) :
    ∃ d, index.get? name = some d ∧ index.kindOf name = .ok d.kind := by
  cases found : index.get? name with
  | none => exact absurd h (get?_eq_none_iff.mp found)
  | some d => exact ⟨d, rfl, by simp [kindOf, found]⟩

end Index

/-- A reference whose type, if it names one, is defined. -/
def Resolves (index : Index) (r : Reference) : Prop :=
  ∀ n, r.Names n → n ∈ index.map (·.name)

theorem Resolves.items (h : Resolves index (.array r)) : Resolves index r :=
  fun n names => h n (.array names)

theorem exists_plainDocType_named {n : String} (h : n ∈ index.map (·.name)) (qualified : Bool) :
    ∃ doc, plainDocType l index qualified .type n = .ok doc := by
  obtain ⟨d, -, kind⟩ := Index.exists_kindOf h
  simp only [plainDocType, kind, ok_bind]
  by_cases enum : d.kind = .enum <;> simp [enum]

/-- The documented type of a reference is found, however deep the type lies. -/
theorem exists_docType (wellFormed : r.WellFormed) (resolves : Resolves index r)
    (qualified : Bool) : ∃ doc, docType l index qualified r = .ok doc := by
  induction wellFormed with
  | scalar s => exact ⟨scalarDocType l s, by simp [Reference.scalar, docType, plainDocType]⟩
  | named n => exact exists_plainDocType_named (resolves n (.named n)) qualified
  | array items ih =>
      obtain ⟨inner, found⟩ := ih resolves.items
      exact ⟨arrayDocType l inner, by simp [Reference.array, docType, found]⟩

/-- The conversion of a reference is found at its innermost element. -/
theorem exists_conversion (wellFormed : r.WellFormed) (resolves : Resolves index r) :
    ∃ c, conversion index r = .ok c := by
  suffices innermost : (∃ s, r.element = .scalar s) ∨ ∃ n, r.element = .named n ∧ r.Names n by
    rcases innermost with ⟨s, scalar⟩ | ⟨n, named, names⟩
    · simp only [conversion, scalar, Reference.kind_scalar, if_true]
      split <;> exact ⟨_, rfl⟩
    · obtain ⟨d, -, kind⟩ := Index.exists_kindOf (resolves n names)
      have name : (Reference.named n).name = n := rfl
      simp only [conversion, named, Reference.kind_named, name, kind, ok_bind]
      by_cases enum : d.kind = .enum
      · exact ⟨.plain, by simp [enum]⟩
      · cases array : r.isArray <;> simp [enum]
  clear resolves
  induction wellFormed with
  | scalar s => exact .inl ⟨s, rfl⟩
  | named n => exact .inr ⟨n, rfl, .named n⟩
  | array items ih =>
      rcases ih with ⟨s, scalar⟩ | ⟨n, named, names⟩
      · exact .inl ⟨s, scalar⟩
      · exact .inr ⟨n, named, .array names⟩

/-- A value is wrapped as a single entity only if its type is named outright. -/
theorem eq_named_of_conversion_entity {cls : String} (wellFormed : r.WellFormed)
    (h : conversion index r = .ok (.entity cls)) : ∃ n, r = .named n := by
  cases wellFormed with
  | scalar s =>
      by_cases date : isDateScalar (Reference.scalar s).name <;> simp [conversion, date] at h
  | named n => exact ⟨n, rfl⟩
  | @array items _ =>
      unfold conversion at h
      split at h
      · split at h <;> simp at h
      · obtain ⟨kind, -, h⟩ := bind_eq_ok.mp h
        by_cases enum : kind = .enum <;> simp [enum] at h

/-- A reply is found, and a result is constructed with the key of its items. -/
theorem exists_replyOf (keys : ∀ d ∈ index, d.kind = .result → d.itemsKey.isSome)
    (wellFormed : r.WellFormed) (resolves : Resolves index r) :
    ∃ reply, replyOf index r = .ok reply ∧ reply.lacksKey = false := by
  obtain ⟨c, converted⟩ := exists_conversion wellFormed resolves
  simp only [replyOf, converted, ok_bind]
  cases c with
  | entity cls =>
      obtain ⟨n, rfl⟩ := eq_named_of_conversion_entity wellFormed converted
      obtain ⟨d, found, kind⟩ := Index.exists_kindOf (resolves n (.named n))
      have name : (Reference.named n).name = n := rfl
      simp only [name, kind, ok_bind, found, Option.bind_some, pure_eq]
      by_cases result : d.kind = .result
      · have key := keys d (Index.mem_of_get?_eq_some found).1 result
        obtain ⟨k, key⟩ := Option.isSome_iff_exists.mp key
        exact ⟨.result cls (some k), by simp [result, key], rfl⟩
      · exact ⟨.entity cls, by simp [result], rfl⟩
  | entities cls => exact ⟨.entities cls, rfl, rfl⟩
  | plain => exact ⟨.data, rfl, rfl⟩
  | date => exact ⟨.data, rfl, rfl⟩
  | dates => exact ⟨.data, rfl, rfl⟩

theorem exists_bodyView (wellFormed : r.WellFormed) (resolves : Resolves index r)
    (parameters : List String) : ∃ v, bodyView l index parameters r = .ok v := by
  obtain ⟨doc, documented⟩ := exists_docType (l := l) wellFormed resolves true
  obtain ⟨c, converted⟩ := exists_conversion wellFormed resolves
  simp only [bodyView, documented, converted, ok_bind, pure_eq]
  exact ⟨_, rfl⟩

/-- A definition whose properties and items resolve has a view. -/
theorem exists_entityView {d : Definition} (wellFormed : d.WellFormed)
    (properties : ∀ p ∈ d.properties, Resolves index p.reference)
    (items : ∀ r, d.itemType = some r → Resolves index r) :
    ∃ v, entityView l index d = .ok v := by
  have members : ∃ vs, d.properties.mapM (propertyView l index) = .ok vs := by
    apply exists_mapM_eq_ok
    intro p hp
    obtain ⟨c, converted⟩ := exists_conversion (wellFormed.properties p hp) (properties p hp)
    obtain ⟨doc, documented⟩ :=
      exists_docType (l := l) (wellFormed.properties p hp) (properties p hp) false
    simp only [propertyView, converted, documented, ok_bind, pure_eq]
    exact ⟨_, rfl⟩
  have item : ∃ v, itemView l index d = .ok v := by
    unfold itemView
    split
    next r _ found =>
      obtain ⟨c, converted⟩ := exists_conversion (wellFormed.items r found) (items r found)
      obtain ⟨doc, documented⟩ :=
        exists_docType (l := l) (wellFormed.items r found) (items r found) false
      simp only [converted, documented, ok_bind, pure_eq]
      exact ⟨_, rfl⟩
    next => exact ⟨none, rfl⟩
  obtain ⟨vs, members⟩ := members
  obtain ⟨v, item⟩ := item
  simp only [entityView, members, item, ok_bind, pure_eq]
  exact ⟨_, rfl⟩

/-- A computation that does not fail for want of a name. -/
abbrev MissesNothing {α : Type} (x : Outcome α) : Prop := x.Avoids Failure.Misses

theorem missesNothing_nameText (v : Value) : MissesNothing (Naming.nameText v) := by
  unfold Naming.nameText
  split <;> simp [misused]

theorem missesNothing_written (v : Value) : MissesNothing (written v) :=
  Avoids.written (by simp) v

theorem missesNothing_apiWords (r : Naming.Resolver) : MissesNothing r.apiWords :=
  Avoids.bind (missesNothing_nameText _) fun _ _ => Avoids.ok _

theorem missesNothing_namespaceName (r : Naming.Resolver) : MissesNothing r.namespaceName :=
  Avoids.bind (missesNothing_nameText _) fun _ _ =>
    Avoids.bind (missesNothing_nameText _) fun _ _ => Avoids.ok _

theorem missesNothing_packageName (r : Naming.Resolver) : MissesNothing r.packageName := by
  unfold Naming.Resolver.packageName
  split
  · exact Avoids.ok _
  · split
    · refine Avoids.bind (missesNothing_apiWords r) fun name _ => ?_
      split
      · exact Avoids.bind (Avoids.map (missesNothing_written _)) fun _ _ => Avoids.ok _
      · exact Avoids.ok _
    · exact Avoids.bind (missesNothing_nameText _) fun _ _ =>
        Avoids.bind (missesNothing_apiWords r) fun _ _ => Avoids.ok _

theorem missesNothing_packageVendor (v : Value) : MissesNothing (packageVendor v) := by
  unfold packageVendor
  split <;> simp [misused]

theorem missesNothing_addressText (v : Value) : MissesNothing (addressText v) := by
  unfold addressText
  split <;> simp [misused]

theorem missesNothing_methodName (a : Action) : MissesNothing (Naming.methodName a) := by
  unfold Naming.methodName
  split
  · split <;> simp
  · split <;> simp [misused]

theorem missesNothing_supportFiles (e : Emitter) (index : Index) (clients : List String) :
    MissesNothing (supportFiles e index clients) := by
  unfold supportFiles
  split
  · exact Avoids.bind (missesNothing_packageName _) fun _ _ =>
      Avoids.bind (Avoids.needWritable (by simp) _) fun _ _ => Avoids.ok _
  · refine Avoids.bind (missesNothing_namespaceName _) fun _ _ => ?_
    refine Avoids.bind (missesNothing_packageName _) fun _ _ => ?_
    refine Avoids.bind (missesNothing_packageVendor _) fun _ _ => ?_
    refine Avoids.bind (missesNothing_written _) fun _ _ => ?_
    refine Avoids.bind (missesNothing_addressText _) fun _ _ => ?_
    exact Avoids.bind (missesNothing_written _) fun _ _ => Avoids.ok _

section Files

variable {bad : Failure → Prop} (allowed : ∀ path, ¬ bad (.emission (.collision path)))
include allowed

theorem avoids_add (path : String) (file : SourceFile) (tree : Tree) :
    Avoids bad (tree.add path file) := by
  unfold Tree.add
  split
  · exact Avoids.error_iff.mpr (allowed path)
  · exact Avoids.ok _

theorem avoids_addFiles (files : List (String × SourceFile)) (tree : Tree) :
    Avoids bad (addFiles files tree) := by
  induction files generalizing tree with
  | nil => exact Avoids.ok _
  | cons entry files ih => exact Avoids.bind (avoids_add allowed _ _ _) fun next _ => ih next

end Files

/-- The file of a definition that has a view misses nothing. -/
theorem missesNothing_entitySource {e : Emitter} {d : Definition}
    (viewed : ∃ v, entityView e.language index d = .ok v) :
    MissesNothing (entitySource e index d) := by
  obtain ⟨v, viewed⟩ := viewed
  simp only [entitySource, viewed, ok_bind]
  split
  · exact Avoids.bind (Avoids.needWritable (by simp) _) fun _ _ => Avoids.ok _
  · exact Avoids.bind (missesNothing_namespaceName _) fun _ _ =>
      Avoids.bind (Avoids.needWritable (by simp) _) fun _ _ => Avoids.ok _

/-- What the parts of a property's view are. -/
structure IsPropertyView (l : Language) (index : Index) (p : Property) (w : PropertyView) :
    Prop where
  key : w.key = p.name
  getter : w.getter = Naming.getter p.name p.reference
  setter : w.setter = Naming.setter p.name
  variableName : w.variableName = Naming.variableName l p.name
  conversion : Emission.conversion index p.reference = .ok w.conversion
  docType : Emission.docType l index false p.reference = .ok w.docType
  nullable : w.nullable = p.nullable
  description : w.description = descriptionLines p.description

theorem isPropertyView {p : Property} {w : PropertyView} (h : propertyView l index p = .ok w) :
    IsPropertyView l index p w := by
  obtain ⟨c, converted, h⟩ := bind_eq_ok.mp h
  obtain ⟨doc, documented, h⟩ := bind_eq_ok.mp h
  obtain rfl := Except.ok.inj h
  exact ⟨rfl, rfl, rfl, rfl, converted, documented, rfl, rfl⟩

/-- The view of the body that an action asks for, if it asks for one. -/
def requestView (l : Language) (index : Index) (a : Action) : Outcome (Option BodyView) :=
  match a.requestType with
  | some r => (bodyView l index (a.pathParameters.map (Naming.variableName l)) r).map some
  | none => .ok none

/-- The reply that an action promises and its documented type, if it promises one. -/
def responseView (l : Language) (index : Index) (a : Action) : Outcome (Reply × Option String) :=
  match a.responseType with
  | some r => do
    let reply ← replyOf index r
    let doc ← docType l index true r
    pure (reply, some doc)
  | none => .ok (.nothing, none)

/-- The view of an action is made of its request, its response and its name. -/
theorem actionView_eq (l : Language) (index : Index) (a : Action) :
    actionView l index a = requestView l index a >>= fun body =>
      responseView l index a >>= fun answer => Naming.methodName a >>= fun name => pure {
        name
        method := a.method
        path := a.path
        pathExpr := pathExpr l (pathParts l a.path)
        description := descriptionLines a.description
        parameters := a.pathParameters.map (Naming.variableName l)
        body
        reply := answer.1
        replyDoc := answer.2 } := by
  unfold actionView requestView responseView
  cases a.requestType with
  | none =>
      cases a.responseType with
      | none => rfl
      | some r => simp only [bind_assoc, pure_eq, ok_bind]
  | some q =>
      cases a.responseType with
      | none => rfl
      | some r => simp only [bind_assoc, pure_eq, ok_bind]

/-- What the parts of an action's view are. -/
structure IsActionView (l : Language) (index : Index) (a : Action) (w : MethodView) : Prop where
  name : Naming.methodName a = .ok w.name
  method : w.method = a.method
  path : w.path = a.path
  pathExpr : w.pathExpr = Emission.pathExpr l (pathParts l a.path)
  description : w.description = descriptionLines a.description
  parameters : w.parameters = a.pathParameters.map (Naming.variableName l)
  request : requestView l index a = .ok w.body
  response : responseView l index a = .ok (w.reply, w.replyDoc)

theorem isActionView {a : Action} {w : MethodView} (h : actionView l index a = .ok w) :
    IsActionView l index a w := by
  rw [actionView_eq] at h
  obtain ⟨body, requested, h⟩ := bind_eq_ok.mp h
  obtain ⟨answer, answered, h⟩ := bind_eq_ok.mp h
  obtain ⟨name, named, h⟩ := bind_eq_ok.mp h
  obtain rfl := Except.ok.inj h
  exact ⟨named, rfl, rfl, rfl, rfl, rfl, requested, answered⟩

/-- The reply is the one that the response type asks for, if there is one. -/
theorem replyOf_of_responseView {a : Action} {answer : Reply × Option String}
    (h : responseView l index a = .ok answer) :
    (a.responseType = none ∧ answer.1 = .nothing) ∨
      ∃ r, a.responseType = some r ∧ replyOf index r = .ok answer.1 := by
  unfold responseView at h
  cases typed : a.responseType with
  | none =>
      rw [typed] at h
      obtain rfl := Except.ok.inj h
      exact .inl ⟨rfl, rfl⟩
  | some r =>
      rw [typed] at h
      obtain ⟨reply, replied, h⟩ := bind_eq_ok.mp h
      obtain ⟨doc, -, h⟩ := bind_eq_ok.mp h
      obtain rfl := Except.ok.inj h
      exact .inr ⟨r, rfl, replied⟩

section Action

variable {a : Action} (wellFormed : a.WellFormed)
include wellFormed

theorem exists_requestView (request : ∀ r, a.requestType = some r → Resolves index r) :
    ∃ body, requestView l index a = .ok body := by
  unfold requestView
  cases asked : a.requestType with
  | none => exact ⟨none, rfl⟩
  | some q =>
      obtain ⟨b, bodied⟩ := exists_bodyView (l := l) (wellFormed.request q asked)
        (request q asked) (a.pathParameters.map (Naming.variableName l))
      simp only [bodied]
      exact ⟨some b, rfl⟩

theorem exists_responseView (keys : ∀ d ∈ index, d.kind = .result → d.itemsKey.isSome)
    (response : ∀ r, a.responseType = some r → Resolves index r) :
    ∃ answer, responseView l index a = .ok answer ∧ answer.1.lacksKey = false := by
  unfold responseView
  cases answered : a.responseType with
  | none => exact ⟨(.nothing, none), rfl, rfl⟩
  | some r =>
      obtain ⟨reply, replied, keyed⟩ :=
        exists_replyOf keys (wellFormed.response r answered) (response r answered)
      obtain ⟨doc, documented⟩ :=
        exists_docType (l := l) (wellFormed.response r answered) (response r answered) true
      simp only [replied, documented, ok_bind]
      exact ⟨(reply, some doc), rfl, keyed⟩

/-- The view of an action whose types are defined misses nothing. -/
theorem missesNothing_actionView (keys : ∀ d ∈ index, d.kind = .result → d.itemsKey.isSome)
    (request : ∀ r, a.requestType = some r → Resolves index r)
    (response : ∀ r, a.responseType = some r → Resolves index r) :
    MissesNothing (actionView l index a) := by
  obtain ⟨body, requested⟩ := exists_requestView (l := l) wellFormed request
  obtain ⟨answer, answered, -⟩ := exists_responseView (l := l) wellFormed keys response
  simp only [actionView_eq, requested, answered, ok_bind]
  exact Avoids.bind (missesNothing_methodName a) fun _ _ => Avoids.ok _

end Action

theorem missesNothing_methodViews {actions : List Action} (taken : Taken)
    (each : ∀ a ∈ actions, MissesNothing (actionView l index a)) :
    MissesNothing (methodViews l index taken actions) := by
  induction actions generalizing taken with
  | nil => exact Avoids.ok _
  | cons a rest ih =>
      refine Avoids.bind (each a List.mem_cons_self) fun v _ => ?_
      exact Avoids.bind (ih _ fun b hb => each b (List.mem_cons_of_mem _ hb)) fun _ _ => Avoids.ok _

/-- The file of a client whose actions miss nothing misses nothing. -/
theorem missesNothing_clientSource {e : Emitter} {client : String} {actions : List Action}
    (each : ∀ a ∈ actions, MissesNothing (actionView e.language index a)) :
    MissesNothing (clientSource e index client actions) := by
  have viewed : MissesNothing (clientView e.language index client actions) :=
    Avoids.bind (missesNothing_methodViews [] each) fun _ _ => Avoids.ok _
  have finish (v : ClientView) (file : SourceFile) : MissesNothing
      (if v.methods.any (·.reply.lacksKey) then misused .noSuchPart else .ok file) := by
    split <;> simp [misused]
  cases l : e.language with
  | javascript =>
      rw [l] at viewed
      simp only [clientSource, l, pure_eq, ok_bind]
      exact Avoids.bind viewed fun v _ =>
        Avoids.bind (missesNothing_written _) fun _ _ => finish v _
  | php =>
      rw [l] at viewed
      simp only [clientSource, l, pure_eq, ok_bind]
      exact Avoids.bind viewed fun v _ =>
        Avoids.bind (missesNothing_namespaceName _) fun _ _ =>
          Avoids.bind (missesNothing_written _) fun _ _ => finish v _

end Emission

end ClientForge
