import ClientForge.Model.Fingerprint
import ClientForge.Proofs.JsonText
import ClientForge.Proofs.Rendering

/-!
# What a fingerprint covers

The canonical text of a build shows each definition without what belongs to another
kind, and each display name as it is printed. Nothing else of a definition gets into a
file, as long as only results have items, and of a display name only its text, or
whether it counts as true. Two builds with one text are therefore rendered alike: the
same files in the same order with the same content, or the same failure.
-/

namespace ClientForge

namespace Json

/-! ## Values -/

theorem length_insertBy {α : Type} (before : α → α → Bool) (x : α) (xs : List α) :
    (insertBy before x xs).length = xs.length + 1 := by
  induction xs with
  | nil => rfl
  | cons y rest ih =>
      rw [insertBy]
      split
      · rfl
      · rw [List.length_cons, ih, List.length_cons]

theorem length_sortBy {α : Type} (before : α → α → Bool) (xs : List α) :
    (sortBy before xs).length = xs.length := by
  suffices grown : ∀ sorted : List α,
      (xs.foldl (fun sorted x => insertBy before x sorted) sorted).length =
        sorted.length + xs.length by
    have := grown []
    rwa [List.length_nil, Nat.zero_add] at this
  induction xs with
  | nil => exact fun sorted => rfl
  | cons x xs ih =>
      intro sorted
      rw [List.foldl_cons, ih, length_insertBy, List.length_cons]
      omega

/-- Putting members in order loses none. -/
theorem length_orderMembers? {members ordered : List (Value × Json)}
    (h : orderMembers? members = some ordered) : ordered.length = members.length := by
  unfold orderMembers? at h
  split_ifs at h with single texts numbers
  · cases h
    rfl
  · cases h
    exact length_sortBy _ _
  · cases h
    exact length_sortBy _ _

theorem length_of_mapM {α β : Type} {f : α → Option β} {as : List α} {bs : List β}
    (h : as.mapM f = some bs) : bs.length = as.length := by
  induction as generalizing bs with
  | nil =>
      obtain rfl : [] = bs := by simpa using h
      rfl
  | cons a as ih =>
      rw [List.mapM_cons] at h
      obtain ⟨b, -, h⟩ := Option.bind_eq_some_iff.mp h
      obtain ⟨rest, more, h⟩ := Option.bind_eq_some_iff.mp h
      obtain rfl := Option.some.inj h
      rw [List.length_cons, List.length_cons, ih more]

theorem ofMembers?_eq_some {members : List (Value × Json)} {j : Json}
    (h : ofMembers? members = some j) :
    ∃ named, j = .obj named ∧ named.length = members.length := by
  obtain ⟨ordered, order, h⟩ := Option.bind_eq_some_iff.mp h
  obtain ⟨named, names, h⟩ := Option.bind_eq_some_iff.mp h
  obtain rfl := Option.some.inj h
  exact ⟨named, rfl, (length_of_mapM names).trans (length_orderMembers? order)⟩

theorem ofValues?_eq_mapM (vs : List Value) : ofValues? vs = vs.mapM ofValue? := by
  induction vs with
  | nil => rfl
  | cons v vs ih => rw [ofValues?, ih, List.mapM_cons]

theorem ofEntries?_eq_mapM (es : List (Value × Value)) : ofEntries? es = es.mapM ofEntry? := by
  induction es with
  | nil => rfl
  | cons e es ih => rw [ofEntries?, ih, List.mapM_cons]

theorem isEmpty_congr {α β : Type} {as : List α} {bs : List β} (h : as.length = bs.length) :
    as.isEmpty = bs.isEmpty := by
  rw [Bool.eq_iff_iff, List.isEmpty_iff_length_eq_zero, List.isEmpty_iff_length_eq_zero, h]

theorem isTruthy_arr {vs : List Value} {js : List Json} (h : ofValues? vs = some js) :
    (arr js).printed.isTruthy = !vs.isEmpty := by
  rw [ofValues?_eq_mapM] at h
  refine congrArg not (isEmpty_congr ?_)
  rw [printedItems_eq_map, List.length_map, length_of_mapM h]

/-- What is printed of a value shows its text and whether it counts as true. -/
theorem printed_ofValue? {v : Value} {j : Json} (h : ofValue? v = some j) :
    j.printed.text? = v.text? ∧ j.printed.isTruthy = v.isTruthy := by
  cases v with
  | null =>
      obtain rfl : Json.null = j := by simpa [ofValue?] using h
      exact ⟨rfl, by decide⟩
  | bool b =>
      obtain rfl : Json.bool b = j := by simpa [ofValue?] using h
      exact ⟨rfl, Word.isTruthy_ofBool b⟩
  | int n =>
      obtain rfl : Json.int n = j := by simpa [ofValue?] using h
      exact ⟨rfl, Word.isTruthy_ofInt n⟩
  | float x =>
      obtain rfl : Json.float x = j := by simpa [ofValue?] using h
      exact ⟨rfl, Word.isTruthy_ofFloat x⟩
  | str s =>
      obtain rfl : Json.str s = j := by simpa [ofValue?] using h
      exact ⟨rfl, rfl⟩
  | list items =>
      obtain ⟨js, each, rfl⟩ := Option.map_eq_some_iff.mp h
      exact ⟨rfl, isTruthy_arr each⟩
  | tuple items =>
      obtain ⟨js, each, rfl⟩ := Option.map_eq_some_iff.mp h
      exact ⟨rfl, isTruthy_arr each⟩
  | map entries =>
      obtain ⟨members, each, named⟩ := Option.bind_eq_some_iff.mp h
      obtain ⟨named, rfl, length⟩ := ofMembers?_eq_some named
      rw [ofEntries?_eq_mapM] at each
      refine ⟨rfl, congrArg not (isEmpty_congr ?_)⟩
      rw [printedMembers_eq_map, List.length_map, length, length_of_mapM each]
  | set items => cases h
  | date d => cases h
  | dateTime t => cases h
  | time t => cases h
  | bytes bs => cases h

end Json

/-! ## What is shown -/

namespace Value

/-- A display name as far as a method can be named after it. -/
def shownName (v : Value) : Value :=
  match v.text? with
  | some s => .str s
  | none => .bool v.isTruthy

end Value

/-- An action with its display name as far as a method can be named after it. -/
def Action.shown (a : Action) : Action := { a with displayName := a.displayName.shownName }

namespace Definition

/-- A definition without what belongs to another kind. -/
def shown (d : Definition) : Definition :=
  { d with
    enumValues := if d.kind = .enum then d.enumValues else []
    itemType := if d.kind = .result then d.itemType else none
    itemsKey := if d.kind = .result then d.itemsKey else none
    isBaseFilter := d.isFilter && d.isBaseFilter
    extendsBaseFilter := d.isFilter && d.extendsBaseFilter }

@[simp] theorem shown_name (d : Definition) : d.shown.name = d.name := rfl

@[simp] theorem shown_kind (d : Definition) : d.shown.kind = d.kind := rfl

@[simp] theorem shown_properties (d : Definition) : d.shown.properties = d.properties := rfl

@[simp] theorem shown_description (d : Definition) : d.shown.description = d.description := rfl

end Definition

namespace Json

@[simp] theorem printed_ofText?_inj {s t : Option String} :
    (ofText? s).printed = (ofText? t).printed ↔ s = t := by
  cases s <;> cases t <;> simp [ofText?, printed]

@[simp] theorem printed_str_inj {s t : String} : (str s).printed = (str t).printed ↔ s = t := by
  simp [printed]

@[simp] theorem printed_bool_inj {b c : Bool} : (bool b).printed = (bool c).printed ↔ b = c := by
  constructor
  · intro h
    exact Word.ofBool_injective (Printed.word.inj h)
  · rintro rfl
    rfl

@[simp] theorem printed_arr_inj {is js : List Json} :
    (arr is).printed = (arr js).printed ↔ is.map printed = js.map printed := by
  simp [printed, printedItems_eq_map]

@[simp] theorem printed_obj_inj {is js : List (String × Json)} :
    (obj is).printed = (obj js).printed ↔
      (is.map fun m => (m.1, m.2.printed)) = js.map fun m => (m.1, m.2.printed) := by
  simp [printed, printedMembers_eq_map]

/-- Where items that print the same are alike, lists that print the same are. -/
theorem map_eq_map_of_printed {α γ : Type} {f : α → Json} {g : α → γ}
    (each : ∀ a b, (f a).printed = (f b).printed → g a = g b) {as bs : List α}
    (h : (as.map f).map printed = (bs.map f).map printed) : as.map g = bs.map g := by
  induction as generalizing bs with
  | nil =>
      cases bs with
      | nil => rfl
      | cons b bs => cases h
  | cons a as ih =>
      cases bs with
      | nil => cases h
      | cons b bs =>
          obtain ⟨first, rest⟩ := List.cons.inj h
          rw [List.map_cons, List.map_cons, each a b first, ih rest]

end Json

open Json

theorem ReferenceKind.label_injective {k l : ReferenceKind} (h : k.label = l.label) : k = l := by
  cases k <;> cases l <;> simp [label] at h ⊢

theorem Method.name_injective {m n : Method} (h : m.name = n.name) : m = n := by
  have found := Method.ofName?_name m
  rw [h, Method.ofName?_name] at found
  exact (Option.some.inj found).symm

theorem Reference.eq_of_printed {r s : Reference} (h : r.toJson.printed = s.toJson.printed) :
    r = s := by
  induction r generalizing s with
  | leaf k n =>
      cases s with
      | leaf l m =>
          simp only [Reference.toJson, printed_obj_inj, List.map_cons, List.map_nil,
            List.cons.injEq, Prod.mk.injEq, true_and, printed_str_inj, and_true] at h
          rw [ReferenceKind.label_injective h.1, h.2]
      | holding l m items => simp [Reference.toJson] at h
  | holding k n items ih =>
      cases s with
      | leaf l m => simp [Reference.toJson] at h
      | holding l m others =>
          simp only [Reference.toJson, printed_obj_inj, List.map_cons, List.map_nil,
            List.cons.injEq, Prod.mk.injEq, true_and, printed_str_inj, and_true] at h
          rw [ih h.1, ReferenceKind.label_injective h.2.1, h.2.2]

theorem Reference.optional_eq_of_printed {r s : Option Reference}
    (h : (Reference.optionalJson r).printed = (Reference.optionalJson s).printed) : r = s := by
  cases r with
  | none =>
      cases s with
      | none => rfl
      | some s => cases s <;> cases h
  | some r =>
      cases s with
      | none => cases r <;> cases h
      | some s => rw [Reference.eq_of_printed h]

theorem Property.eq_of_printed {p q : Property} (h : p.toJson.printed = q.toJson.printed) :
    p = q := by
  obtain ⟨name, rawType, reference, nullable, description⟩ := p
  obtain ⟨name', rawType', reference', nullable', description'⟩ := q
  simp only [Property.toJson, printed_obj_inj, List.map_cons, List.map_nil,
    List.cons.injEq, Prod.mk.injEq, true_and, printed_str_inj, printed_ofText?_inj,
    printed_bool_inj, and_true] at h
  obtain ⟨rfl, rfl, rfl, rfl, same⟩ := h
  rw [Reference.eq_of_printed same]

/-- Definitions that print the same show the same. -/
theorem Definition.shown_eq_of_printed {d e : Definition}
    (h : d.toJson.printed = e.toJson.printed) : d.shown = e.shown := by
  obtain ⟨name, kind, properties, parent, description, values, items, key, isBase, extendsBase⟩ := d
  obtain ⟨name', kind', properties', parent', description', values', items', key', isBase',
    extendsBase'⟩ := e
  have kinds : kind = kind' := by
    cases kind <;> cases kind' <;> simp [toJson, TypeKind.name] at h ⊢
  subst kinds
  have listed : ∀ {ps qs : List Property},
      (ps.map (·.toJson)).map printed = (qs.map (·.toJson)).map printed → ps = qs := by
    intro ps qs same
    have := map_eq_map_of_printed (g := id) (fun p q => Property.eq_of_printed) same
    rwa [List.map_id, List.map_id] at this
  cases kind <;>
    simp only [toJson, printed_obj_inj, List.map_cons, List.map_nil, List.cons.injEq,
      Prod.mk.injEq, true_and, printed_str_inj, printed_ofText?_inj, printed_arr_inj,
      printed_bool_inj, and_true] at h
  case object =>
      obtain ⟨rfl, rfl, rfl, same⟩ := h
      rw [listed same]
      rfl
  case result =>
      obtain ⟨rfl, item, rfl, rfl, rfl, same⟩ := h
      rw [listed same, Reference.optional_eq_of_printed item]
      rfl
  case enum =>
      obtain ⟨rfl, texts, rfl, rfl, same⟩ := h
      have values := map_eq_map_of_printed (g := id) (fun s t => printed_str_inj.mp) texts
      rw [List.map_id, List.map_id] at values
      rw [listed same, values]
      rfl
  case filter =>
      obtain ⟨rfl, rfl, rfl, rfl, rfl, same⟩ := h
      rw [listed same]
      rfl

/-- Actions that print the same show the same. -/
theorem Action.shown_eq_of_printed {a b : Action} {i j : Json} (ha : a.toJson? = some i)
    (hb : b.toJson? = some j) (h : i.printed = j.printed) : a.shown = b.shown := by
  obtain ⟨client, method, path, description, display, request, response⟩ := a
  obtain ⟨client', method', path', description', display', request', response'⟩ := b
  obtain ⟨name, shows, ha⟩ := Option.bind_eq_some_iff.mp ha
  obtain ⟨name', shows', hb⟩ := Option.bind_eq_some_iff.mp hb
  obtain rfl := Option.some.inj ha
  obtain rfl := Option.some.inj hb
  simp only [printed_obj_inj, List.map_cons, List.map_nil, List.cons.injEq, Prod.mk.injEq,
    true_and, printed_str_inj, printed_ofText?_inj, and_true] at h
  obtain ⟨rfl, rfl, named, methods, rfl, requests, responses⟩ := h
  obtain ⟨text, truthy⟩ := printed_ofValue? shows
  obtain ⟨text', truthy'⟩ := printed_ofValue? shows'
  have display : display.shownName = display'.shownName := by
    rw [Value.shownName, Value.shownName, ← text, ← text', ← truthy, ← truthy', named]
  rw [Method.name_injective methods, Reference.optional_eq_of_printed requests,
    Reference.optional_eq_of_printed responses, shown, shown]
  simp only [display]

theorem Action.map_shown_eq_of_printed {as bs : List Action} {is js : List Json}
    (first : as.mapM (·.toJson?) = some is) (second : bs.mapM (·.toJson?) = some js)
    (h : is.map printed = js.map printed) : as.map (·.shown) = bs.map (·.shown) := by
  have lengths : as.length = bs.length := by
    rw [← length_of_mapM first, ← length_of_mapM second, ← List.length_map printed, h,
      List.length_map]
  induction as generalizing bs is js with
  | nil => rw [List.length_eq_zero_iff.mp lengths.symm]
  | cons a as ih =>
      cases bs with
      | nil => cases lengths
      | cons b bs =>
          rw [List.mapM_cons] at first second
          obtain ⟨i, ha, first⟩ := Option.bind_eq_some_iff.mp first
          obtain ⟨is, has, first⟩ := Option.bind_eq_some_iff.mp first
          obtain ⟨j, hb, second⟩ := Option.bind_eq_some_iff.mp second
          obtain ⟨js, hbs, second⟩ := Option.bind_eq_some_iff.mp second
          obtain rfl := Option.some.inj first
          obtain rfl := Option.some.inj second
          obtain ⟨head, rest⟩ := List.cons.inj h
          rw [List.map_cons, List.map_cons, shown_eq_of_printed ha hb head,
            ih has hbs rest (Nat.succ.inj lengths)]

/-- Builds whose documents are whole and have one text show the same definitions and the same
actions. -/
theorem shown_eq_of_text {ds es : List Definition} {as bs : List Action} {i j : Json}
    (first : buildJson? ds as = some i) (second : buildJson? es bs = some j) (hi : i.IsWhole)
    (hj : j.IsWhole) (h : i.text = j.text) :
    ds.map (·.shown) = es.map (·.shown) ∧ as.map (·.shown) = bs.map (·.shown) := by
  have same := printed_eq_of_text hi hj h
  obtain ⟨is, has, first⟩ := Option.bind_eq_some_iff.mp first
  obtain ⟨js, hbs, second⟩ := Option.bind_eq_some_iff.mp second
  obtain rfl := Option.some.inj first
  obtain rfl := Option.some.inj second
  simp only [printed_obj_inj, List.map_cons, List.map_nil, List.cons.injEq, Prod.mk.injEq,
    true_and, printed_arr_inj, and_true] at same
  exact ⟨map_eq_map_of_printed (fun d e => Definition.shown_eq_of_printed) same.2,
    Action.map_shown_eq_of_printed has hbs same.1⟩

/-! ## What is rendered -/

theorem Naming.methodName_shown (a : Action) : Naming.methodName a.shown = Naming.methodName a := by
  obtain ⟨client, method, path, description, display, request, response⟩ := a
  cases display <;> rfl

namespace Definition

/-- Only a result has items. -/
def KeepsItems (d : Definition) : Prop := d.itemType ≠ none → d.kind = .result

variable {d : Definition}

theorem KeepsItems.shown_itemType (h : d.KeepsItems) : d.shown.itemType = d.itemType := by
  by_cases result : d.kind = .result
  · exact if_pos result
  · rw [show d.shown.itemType = none from if_neg result]
    by_contra items
    exact result (h (Ne.symm items))

theorem KeepsItems.dependsOn_shown (h : d.KeepsItems) : d.shown.dependsOn = d.dependsOn := by
  unfold dependsOn
  rw [h.shown_itemType]
  rfl

end Definition

namespace Emission

namespace Index

variable (index : Index) (name : String)

theorem get?_map_shown :
    get? (index.map (·.shown)) name = (get? index name).map (·.shown) := by
  rw [get?, get?, ← List.map_reverse, List.find?_map]
  rfl

theorem has_map_shown : has (index.map (·.shown)) name = has index name := by
  rw [has, has, get?_map_shown, Option.isSome_map]

theorem kindOf_map_shown : kindOf (index.map (·.shown)) name = kindOf index name := by
  rw [kindOf, kindOf, get?_map_shown]
  cases get? index name <;> rfl

end Index

open Outcome

variable {e : Emitter} (l : Language) (index : Index)

theorem conversion_map_shown (r : Reference) :
    conversion (index.map (·.shown)) r = conversion index r := by
  rw [conversion, conversion, Index.kindOf_map_shown]

theorem docType_map_shown (qualified : Bool) (r : Reference) :
    docType l (index.map (·.shown)) qualified r = docType l index qualified r := by
  have plain (kind : ReferenceKind) (name : String) :
      plainDocType l (index.map (·.shown)) qualified kind name =
        plainDocType l index qualified kind name := by
    rw [plainDocType, plainDocType, Index.kindOf_map_shown]
  fun_induction docType l index qualified r with
  | case1 name => rfl
  | case2 kind name other =>
      rw [docType, plain]
      exact other
  | case3 name items ih => rw [docType, ih]
  | case4 kind name items other =>
      rw [docType, plain]
      exact other

theorem propertyView_map_shown :
    propertyView l (index.map (·.shown)) = propertyView l index := by
  funext p
  rw [propertyView, propertyView, conversion_map_shown, docType_map_shown]

theorem itemView_shown (d : Definition) :
    itemView l (index.map (·.shown)) d.shown = itemView l index d := by
  obtain ⟨name, kind, properties, parent, description, values, items, key, isBase, extendsBase⟩ := d
  cases kind with
  | result =>
      cases items with
      | none => rfl
      | some r =>
          change (conversion (index.map Definition.shown) r >>= fun c =>
            docType l (index.map Definition.shown) false r >>= fun doc =>
              pure (some (ItemView.mk c doc))) = _
          rw [conversion_map_shown, docType_map_shown]
          rfl
  | object => rfl
  | enum => rfl
  | filter => rfl

theorem baseClass_shown (d : Definition) : baseClass d.shown = baseClass d := by
  obtain ⟨name, kind, properties, parent, description, values, items, key, isBase, extendsBase⟩ := d
  cases kind <;> rfl

/-- The view of an entity without cases unless it is an enumeration. -/
def EntityView.shown (kind : TypeKind) (v : EntityView) : EntityView :=
  { v with cases := if kind = .enum then v.cases else [] }

theorem entityView_shown {d : Definition} (items : d.KeepsItems) :
    entityView l (index.map (·.shown)) d.shown =
      EntityView.shown d.kind <$> entityView l index d := by
  have imports (ps : List PropertyView) (item : Option ItemView) :
      entityImports d.shown ps item = entityImports d ps item := by
    rw [entityImports, entityImports, items.shown_itemType]
    rfl
  have cases_ : enumCases d.shown.enumValues =
      if d.kind = .enum then enumCases d.enumValues else [] := by
    rw [Definition.shown]
    split <;> rfl
  rw [entityView, entityView, propertyView_map_shown, itemView_shown, Definition.shown_properties]
  cases d.properties.mapM (propertyView l index) with
  | error f => rfl
  | ok properties =>
      cases itemView l index d with
      | error f => rfl
      | ok item =>
          simp only [ok_bind, pure_eq, Definition.shown_name, Definition.shown_description,
            baseClass_shown, imports, cases_]
          rfl

/-- A file of a definition has one text, whatever else the definition holds. -/
theorem text_entitySource_shown {d : Definition} (items : d.KeepsItems) :
    SourceFile.text <$> entitySource e (index.map (·.shown)) d.shown =
      SourceFile.text <$> entitySource e index d := by
  rw [entitySource, entitySource, entityView_shown _ _ items, Definition.shown_kind]
  cases entityView e.language index d with
  | error f => rfl
  | ok v =>
      by_cases enum : d.kind = .enum
      · have same : EntityView.shown d.kind v = v := by simp [EntityView.shown, enum]
        change SourceFile.text <$> (Except.ok (EntityView.shown d.kind v) >>= _) = _
        rw [same]
      · have common : (EntityView.shown d.kind v).base = v.base := rfl
        simp only [map_eq_pure_bind, ok_bind, pure_eq, common, enum, if_false]
        generalize needWritable _ = checked
        cases e.language with
        | javascript => cases checked <;> rfl
        | php => cases e.resolver.namespaceName <;> cases checked <;> rfl

theorem bodyView_map_shown (parameters : List String) (r : Reference) :
    bodyView l (index.map (·.shown)) parameters r = bodyView l index parameters r := by
  rw [bodyView, bodyView, docType_map_shown, conversion_map_shown]

theorem replyOf_map_shown (r : Reference) :
    replyOf (index.map (·.shown)) r = replyOf index r := by
  rw [replyOf, replyOf, conversion_map_shown, Index.kindOf_map_shown, Index.get?_map_shown]
  cases conversion index r with
  | error f => rfl
  | ok c =>
      cases c with
      | entity cls =>
          cases found : Index.get? index r.name with
          | none => simp [Index.kindOf, found, misused]
          | some d =>
              by_cases result : d.kind = .result
              · simp [Index.kindOf, found, result, Definition.shown]
              · simp [Index.kindOf, found, result]
      | _ => rfl

theorem actionView_shown (a : Action) :
    actionView l (index.map (·.shown)) a.shown = actionView l index a := by
  rw [actionView, actionView, Naming.methodName_shown]
  simp only [bodyView_map_shown, replyOf_map_shown, docType_map_shown]
  rfl

theorem methodViews_shown (taken : Taken) (actions : List Action) :
    methodViews l (index.map (·.shown)) taken (actions.map (·.shown)) =
      methodViews l index taken actions := by
  induction actions generalizing taken with
  | nil => rfl
  | cons a actions ih =>
      rw [List.map_cons, methodViews, methodViews, actionView_shown]
      simp only [ih]
      rfl

theorem clientSource_shown (client : String) (actions : List Action) :
    clientSource e (index.map (·.shown)) client (actions.map (·.shown)) =
      clientSource e index client actions := by
  have imports : clientImports (actions.map (·.shown)) = clientImports actions := by
    rw [clientImports, clientImports, List.flatMap_map]
    rfl
  rw [clientSource, clientSource, clientView, clientView, methodViews_shown, imports]

theorem supportFiles_map_shown (clients : List String) :
    supportFiles e (index.map (·.shown)) clients = supportFiles e index clients := by
  have exports : exportsOf (index.map (·.shown)) clients = exportsOf index clients := by
    rw [exportsOf, exportsOf, List.map_map]
    rfl
  rw [supportFiles, supportFiles, exports]

/-! ### References and groups -/

variable {definitions : List Definition} {actions : List Action}

theorem references_shown (items : ∀ d ∈ definitions, d.KeepsItems) :
    references (definitions.map (·.shown)) (actions.map (·.shown)) =
      references definitions actions := by
  rw [references, references, List.flatMap_map, List.flatMap_map]
  congr 1
  refine List.flatMap_congr fun d hd => ?_
  rw [(items d hd).dependsOn_shown, Definition.shown_name]

theorem checkReferences_shown (items : ∀ d ∈ definitions, d.KeepsItems) :
    checkReferences l (definitions.map (·.shown)) (actions.map (·.shown)) =
      checkReferences l definitions actions := by
  have missing : dangling? (definitions.map (·.shown)) (actions.map (·.shown)) =
      dangling? definitions actions := by
    rw [dangling?, dangling?, references_shown items]
    simp only [Index.has_map_shown]
  rw [checkReferences, checkReferences, missing]

theorem put_map {α β : Type} (f : α → β) (name : String) (x : α) (t : Table α) :
    Table.put name (f x) (t.map fun g => (g.1, f g.2)) =
      (Table.put name x t).map fun g => (g.1, f g.2) := by
  induction t with
  | nil => rfl
  | cons g t ih =>
      rw [List.map_cons, Table.put, Table.put]
      split
      · rfl
      · rw [ih, List.map_cons]

theorem get?_map {α β : Type} (f : α → β) (name : String) (t : Table α) :
    Table.get? name (t.map fun g => (g.1, f g.2)) = (Table.get? name t).map f := by
  induction t with
  | nil => rfl
  | cons g t ih =>
      rw [List.map_cons, Table.get?, Table.get?]
      split
      · rfl
      · exact ih

theorem groupByClient_shown :
    groupByClient (actions.map (·.shown)) =
      (groupByClient actions).map fun g => (g.1, g.2.map (·.shown)) := by
  let step (groups : Table (List Action)) (a : Action) : Table (List Action) :=
    groups.put a.client ((groups.get? a.client).getD [] ++ [a])
  have one (groups : Table (List Action)) (a : Action) :
      step (groups.map fun g => (g.1, g.2.map (·.shown))) a.shown =
        (step groups a).map fun g => (g.1, g.2.map (·.shown)) := by
    change Table.put a.client ((Table.get? a.client _).getD [] ++ [a.shown]) _ = _
    rw [get?_map, ← put_map]
    cases Table.get? a.client groups <;> simp
  suffices grown : ∀ groups : Table (List Action),
      (actions.map (·.shown)).foldl step (groups.map fun g => (g.1, g.2.map (·.shown))) =
        (actions.foldl step groups).map fun g => (g.1, g.2.map (·.shown)) from grown []
  induction actions with
  | nil => exact fun groups => rfl
  | cons a actions ih =>
      intro groups
      rw [List.map_cons, List.foldl_cons, List.foldl_cons, one, ih]

/-! ### Trees -/

/-- The files of a tree by their texts. -/
def Tree.texts (tree : Tree) : List (String × String) := tree.map fun f => (f.1, f.2.text)

theorem Tree.names_eq_of_texts {tree other : Tree} (h : tree.texts = other.texts) :
    Table.names tree = Table.names other := by
  have same := congrArg (List.map Prod.fst) h
  rw [texts, texts, List.map_map, List.map_map] at same
  exact same

theorem Tree.texts_add {path : String} {file other : SourceFile} {tree tree' : Tree}
    (texts : file.text = other.text) (trees : tree.texts = tree'.texts) :
    Tree.texts <$> tree.add path file = Tree.texts <$> tree'.add path other := by
  have taken : Table.has path tree = Table.has path tree' := by
    rw [Bool.eq_iff_iff, Table.has_iff, Table.has_iff, Tree.names_eq_of_texts trees]
  rw [Tree.add, Tree.add, taken]
  split
  · rfl
  · have both : Tree.texts (tree ++ [(path, file)]) = Tree.texts (tree' ++ [(path, other)]) := by
      rw [Tree.texts, Tree.texts, List.map_append, List.map_append]
      exact congrArg₂ _ trees (by rw [List.map_singleton, List.map_singleton, texts])
    exact congrArg Except.ok both

/-- Steps that agree up to what is seen of them give runs that do. -/
theorem map_bind_congr {α β γ δ : Type} {f : α → γ} {g : β → δ} {x y : Outcome α}
    {next other : α → Outcome β} (first : f <$> x = f <$> y)
    (rest : ∀ a b, f a = f b → g <$> next a = g <$> other b) :
    g <$> (x >>= next) = g <$> (y >>= other) := by
  cases x with
  | error p =>
      cases y with
      | error q =>
          obtain rfl := Except.error.inj first
          rfl
      | ok b => cases first
  | ok a =>
      cases y with
      | error q => cases first
      | ok b => exact rest a b (Except.ok.inj first)

theorem texts_addEntities {tree tree' : Tree} (items : ∀ d ∈ definitions, d.KeepsItems)
    (trees : tree.texts = tree'.texts) :
    Tree.texts <$> addEntities e (index.map (·.shown)) (definitions.map (·.shown)) tree =
      Tree.texts <$> addEntities e index definitions tree' := by
  induction definitions generalizing tree tree' with
  | nil => exact congrArg Except.ok trees
  | cons d definitions ih =>
      rw [List.map_cons, addEntities, addEntities]
      refine map_bind_congr (text_entitySource_shown index (items d List.mem_cons_self)) ?_
      intro file other same
      refine map_bind_congr (Tree.texts_add same trees) fun next next' alike => ?_
      exact ih (fun c hc => items c (List.mem_cons_of_mem _ hc)) alike

theorem texts_addClients {groups : Table (List Action)} {tree tree' : Tree}
    (trees : tree.texts = tree'.texts) :
    Tree.texts <$> addClients e (index.map (·.shown))
        (groups.map fun g => (g.1, g.2.map (·.shown))) tree =
      Tree.texts <$> addClients e index groups tree' := by
  induction groups generalizing tree tree' with
  | nil => exact congrArg Except.ok trees
  | cons g groups ih =>
      rw [List.map_cons, addClients, addClients, clientSource_shown]
      split
      · rfl
      · refine map_bind_congr (f := id) rfl ?_
        rintro file _ rfl
        exact map_bind_congr (Tree.texts_add rfl trees) fun next next' alike => ih alike

theorem texts_addFiles {files : List (String × SourceFile)} {tree tree' : Tree}
    (trees : tree.texts = tree'.texts) :
    Tree.texts <$> addFiles files tree = Tree.texts <$> addFiles files tree' := by
  induction files generalizing tree tree' with
  | nil => exact congrArg Except.ok trees
  | cons entry files ih =>
      rw [addFiles, addFiles]
      exact map_bind_congr (Tree.texts_add rfl trees) fun next next' alike => ih alike

/-- Rendering reads nothing but what is shown. -/
theorem texts_render_shown (items : ∀ d ∈ definitions, d.KeepsItems) :
    Tree.texts <$> render e (definitions.map (·.shown)) (actions.map (·.shown)) =
      Tree.texts <$> render e definitions actions := by
  have clients : Table.names ((groupByClient actions).map fun g => (g.1, g.2.map Action.shown)) =
      Table.names (groupByClient actions) := by
    simp [Table.names]
  rw [render, render, checkReferences_shown _ items, groupByClient_shown]
  refine map_bind_congr (f := id) rfl fun _ _ _ => ?_
  refine map_bind_congr (texts_addEntities definitions items rfl) fun first first' alike => ?_
  refine map_bind_congr (texts_addClients definitions alike) fun second second' alike => ?_
  rw [clients, supportFiles_map_shown]
  refine map_bind_congr (f := id) rfl ?_
  rintro support _ rfl
  exact texts_addFiles alike

/-- Two builds with one canonical text, in no text of which the halves of a pair stand one
after the other as two code points, are rendered alike by every emitter, to the same files or
to the same failure. -/
theorem render_eq_of_buildText {definitions definitions' : List Definition}
    {actions actions' : List Action} {j j' : Json}
    (items : ∀ d ∈ definitions, d.itemType ≠ none → d.kind = .result)
    (items' : ∀ d ∈ definitions', d.itemType ≠ none → d.kind = .result)
    (first : buildJson? definitions actions = some j)
    (second : buildJson? definitions' actions' = some j') (whole : j.IsWhole)
    (whole' : j'.IsWhole) (same : j.text = j'.text) (e : Emitter) :
    Tree.texts <$> render e definitions actions =
      Tree.texts <$> render e definitions' actions' := by
  obtain ⟨types, acts⟩ := shown_eq_of_text first second whole whole' same
  calc Tree.texts <$> render e definitions actions
      = Tree.texts <$> render e (definitions.map (·.shown)) (actions.map (·.shown)) :=
        (texts_render_shown items).symm
    _ = Tree.texts <$> render e (definitions'.map (·.shown)) (actions'.map (·.shown)) := by
        rw [types, acts]
    _ = Tree.texts <$> render e definitions' actions' := texts_render_shown items'

/-- Values of no enumeration, marks of no filter and the type of an empty list are not
in the text, and change no file. -/
theorem unprinted_parts_render_alike : ∃ definitions definitions' actions actions' j j',
    definitions ≠ definitions' ∧
    (∀ d ∈ definitions, d.itemType ≠ none → d.kind = .result) ∧
    (∀ d ∈ definitions', d.itemType ≠ none → d.kind = .result) ∧
    buildJson? definitions actions = some j ∧ buildJson? definitions' actions' = some j' ∧
    j.IsWhole ∧ j'.IsWhole ∧ j.text = j'.text ∧
    ∀ e : Emitter,
      Tree.texts <$> render e definitions actions =
        Tree.texts <$> render e definitions' actions' := by
  let price : Property := ⟨"price", "number", .scalar .number, false, some "in \u20ac"⟩
  let page : Definition :=
    { name := "Page", kind := .result, itemType := some (.named "Item"), itemsKey := some "items" }
  let definitions : List Definition :=
    [{ name := "Item", properties := [price], enumValues := ["EUR"], isBaseFilter := true },
      { page with extendsBaseFilter := true }]
  let definitions' : List Definition := [{ name := "Item", properties := [price] }, page]
  let actions (v : Value) : List Action :=
    [{ path := "/items", displayName := v, responseType := some (.named "Page") },
      { path := "/items/\x7bid\x7d", displayName := .str "one" }]
  have items : ∀ d ∈ definitions, d.itemType ≠ none → d.kind = .result := by decide
  have items' : ∀ d ∈ definitions', d.itemType ≠ none → d.kind = .result := by decide
  have same : buildJson? definitions (actions (.list [])) =
      buildJson? definitions' (actions (.tuple [])) := by with_unfolding_all rfl
  obtain ⟨j, first, whole⟩ : ∃ j, buildJson? definitions (actions (.list [])) = some j ∧
      j.IsWhole := ⟨_, by with_unfolding_all rfl, by unfold Json.IsWhole; decide +kernel⟩
  exact ⟨definitions, definitions', actions (.list []), actions (.tuple []), j, j, by decide,
    items, items', first, same ▸ first, whole, whole, rfl,
    render_eq_of_buildText items items' first (same ▸ first) whole whole rfl⟩

/-- A name with a character beyond the first plane and the same name with the two halves of
its pair are one in the canonical text. With the first there is a type for a property, with
the second there is none. -/
theorem split_pair_renders_otherwise : ∃ definitions definitions' t,
    (∀ d ∈ definitions, d.itemType ≠ none → d.kind = .result) ∧
    (∀ d ∈ definitions', d.itemType ≠ none → d.kind = .result) ∧
    buildText? definitions [] = some t ∧ buildText? definitions' [] = some t ∧
    ∃ e : Emitter,
      Tree.texts <$> render e definitions [] ≠ Tree.texts <$> render e definitions' [] := by
  let joined : String := String.ofList ('A' :: Text.ofCode 0x1F600)
  let split : String := String.ofList ('A' :: (Text.ofCode 0xD83D ++ Text.ofCode 0xDE00))
  let holder : Definition :=
    { name := "B", properties := [⟨"p", joined, .named joined, false, none⟩] }
  let definitions (name : String) : List Definition := [{ name := name }, holder]
  let e : Emitter :=
    ⟨⟨.javascript, .str "", .str "api", .null⟩, .str "common", .str "", .str "1.0.0", true⟩
  have items (name : String) : ∀ d ∈ definitions name, d.itemType ≠ none → d.kind = .result := by
    simp [definitions, holder]
  have same : buildText? (definitions joined) [] = buildText? (definitions split) [] := by
    decide +kernel
  have made : (render e (definitions joined) []).isOk = true := by decide +kernel
  have failed : (render e (definitions split) []).isOk = false := by decide +kernel
  obtain ⟨t, first⟩ : ∃ t, buildText? (definitions joined) [] = some t := ⟨_, rfl⟩
  refine ⟨definitions joined, definitions split, t, items _, items _, first, same ▸ first, e, ?_⟩
  intro alike
  cases rendered : render e (definitions joined) [] with
  | error f =>
      rw [rendered] at made
      cases made
  | ok tree =>
      cases unrendered : render e (definitions split) [] with
      | error f =>
          rw [rendered, unrendered] at alike
          cases alike
      | ok tree' =>
          rw [unrendered] at failed
          cases failed

end Emission

end ClientForge
