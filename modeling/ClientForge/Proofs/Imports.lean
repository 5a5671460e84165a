import ClientForge.Emission.JavascriptFile
import ClientForge.Proofs.Lookup
import ClientForge.Proofs.Naming

/-!
# What a module imports and uses

A module uses classes in three places: the base that it extends, the objects that its
methods construct, and the date helper. All of them come from conversions of references.
The imports are collected from the same conversions, so each class that is constructed
for a named type is imported or is the module's own, and each class that is imported
belongs to a type that is defined.
-/

namespace ClientForge

/-- Whether the innermost element of a reference is an array without items. -/
def Reference.LacksItems (r : Reference) : Prop := r.element.kind = .array

/-- Whether the reference of a property or of the items of a result lacks its items. -/
def Definition.LacksItems (d : Definition) : Prop :=
  (∃ p ∈ d.properties, p.reference.LacksItems) ∨ ∃ r, d.itemType = some r ∧ r.LacksItems

/-- Whether the response of an action lacks its items. -/
def Action.LacksItems (a : Action) : Prop := ∃ r, a.responseType = some r ∧ r.LacksItems

namespace Emission

open ClientForge.Outcome

variable {l : Language} {index : Index} {r : Reference} {cls own : String}

/-- The class in which a conversion wraps values. -/
def Conversion.cls? : Conversion → Option String
  | entity cls => some cls
  | entities cls => some cls
  | plain => none
  | date => none
  | dates => none

theorem Conversion.wraps_iff {c : Conversion} : c.wraps = true ↔ ∃ cls, c.cls? = some cls := by
  cases c <;> simp [wraps, cls?]

namespace Body

@[simp] theorem constructs_reading (key : String) (c : Conversion) :
    (reading key c).constructs = c.cls?.toList := by
  cases c <;> rfl

@[simp] theorem constructs_writing (key argument : String) (c : Conversion) :
    (writing key argument c).constructs = [] := by
  cases c <;> rfl

@[simp] theorem constructs_creating (c : Conversion) :
    (creating l c).constructs = c.cls?.toList := by
  cases c <;> cases l <;> rfl

@[simp] theorem usesDate_reading (key : String) (c : Conversion) :
    (reading key c).usesDate = c.usesDate := by
  cases c <;> rfl

@[simp] theorem usesDate_writing (key argument : String) (c : Conversion) :
    (writing key argument c).usesDate = c.usesDate := by
  cases c <;> rfl

@[simp] theorem usesDate_creating (c : Conversion) :
    (creating l c).usesDate = c.usesDate := by
  cases c <;> cases l <;> rfl

end Body

/-- A conversion wraps values of a defined type only, in the class of its element. -/
theorem cls?_of_conversion {c : Conversion} (h : conversion index r = .ok c)
    (hc : c.cls? = some cls) :
    r.element.kind ≠ .scalar ∧ r.element.name ∈ index.map (·.name) ∧ cls = elementClass r := by
  unfold conversion at h
  split at h
  · split at h
    · cases array : r.isArray <;> · simp only [array] at h; cases h; cases hc
    · cases h
      cases hc
  next notScalar =>
    refine ⟨notScalar, ?_⟩
    obtain ⟨kind, found, h⟩ := bind_eq_ok.mp h
    have defined : r.element.name ∈ index.map (·.name) := by
      by_contra missing
      simp [Index.kindOf, Index.get?_eq_none_iff.mpr missing, misused] at found
    refine ⟨defined, ?_⟩
    split at h
    · cases h
      cases hc
    · split at h
      · cases h
        exact (Option.some.inj hc).symm
      · cases h
        exact (Option.some.inj hc).symm

/-- An element that is no scalar is a type, and its class is the one that is imported, or
it is an array without items, and there is no class to import. -/
theorem elementClass_cases (notScalar : r.element.kind ≠ .scalar) :
    elementClass r = Naming.className r.element.name ∨
      (elementClass r = "None" ∧ r.LacksItems) := by
  cases kind : r.element.kind with
  | scalar => exact absurd kind notScalar
  | type => exact .inl (by simp [elementClass, elementClass?, kind])
  | array => exact .inr ⟨by simp [elementClass, elementClass?, kind], kind⟩

theorem mem_foldl_remember {candidates imports : List String} :
    cls ∈ candidates.foldl (fun acc c => remember own c acc) imports ↔
      cls ∈ imports ∨ cls ∈ candidates ∧ cls ≠ own := by
  induction candidates generalizing imports with
  | nil => simp
  | cons c rest ih =>
      have step : cls ∈ remember own c imports ↔ cls ∈ imports ∨ cls = c ∧ c ≠ own := by
        unfold remember
        by_cases same : c = own
        · simp [same]
        · by_cases there : c ∈ imports
          · simp only [List.contains_iff_mem.mpr there, Bool.or_true, if_true]
            constructor
            · exact .inl
            · rintro (h | ⟨rfl, -⟩)
              · exact h
              · exact there
          · simp [same, there]
      rw [List.foldl_cons, ih, step, List.mem_cons]
      constructor
      · rintro ((h | ⟨rfl, h⟩) | ⟨h, ne⟩)
        · exact .inl h
        · exact .inr ⟨.inl rfl, h⟩
        · exact .inr ⟨.inr h, ne⟩
      · rintro (h | ⟨rfl | h, ne⟩)
        · exact .inl (.inl h)
        · exact .inl (.inr ⟨rfl, ne⟩)
        · exact .inr ⟨h, ne⟩

theorem nodup_foldl_remember {candidates imports : List String} (h : imports.Nodup) :
    (candidates.foldl (fun acc c => remember own c acc) imports).Nodup := by
  refine List.foldlRecOn candidates _ h fun acc once c _ => ?_
  unfold remember
  split
  next => exact once
  next fresh =>
    have missing : c ∉ acc := fun hc => fresh (by simp [hc])
    exact once.append (List.nodup_singleton c) (by simpa using missing)

/-- Whether values of a reference are wrapped: its element is no scalar, and the type of
that name is no enumeration. -/
def Wraps (index : Index) (r : Reference) : Prop :=
  r.element.kind ≠ .scalar ∧ ∃ kind, index.kindOf r.element.name = .ok kind ∧ kind ≠ .enum

theorem wraps_iff_of_conversion {c : Conversion} (h : conversion index r = .ok c) :
    c.wraps = true ↔ Wraps index r := by
  unfold conversion at h
  unfold Wraps
  split at h
  next scalar =>
    have plain : c.wraps = false := by
      split at h
      · cases array : r.isArray <;> · rw [array] at h; cases h; rfl
      · cases h
        rfl
    simp [plain, scalar]
  next notScalar =>
    obtain ⟨kind, found, h⟩ := bind_eq_ok.mp h
    simp only [found, ne_eq, notScalar, not_false_eq_true, true_and]
    split at h
    next enum =>
      cases h
      simp [Conversion.wraps, enum]
    next other =>
      split at h
      · cases h
        simp [Conversion.wraps, other]
      · cases h
        simp [Conversion.wraps, other]

theorem wrappedClass?_eq_some_iff {c : Conversion} (h : conversion index r = .ok c) :
    wrappedClass? r c = some cls ↔ Wraps index r ∧ Naming.className r.element.name = cls := by
  rw [wrappedClass?, ← wraps_iff_of_conversion h]
  by_cases wraps : c.wraps = true <;> simp [wraps]

/-- Whether the innermost element of a reference is a date. -/
def IsDated (r : Reference) : Prop :=
  r.element.kind = .scalar ∧ isDateScalar r.element.name = true

theorem usesDate_iff_of_conversion {c : Conversion} (h : conversion index r = .ok c) :
    c.usesDate = true ↔ IsDated r := by
  unfold conversion at h
  unfold IsDated
  split at h
  next scalar =>
    split at h
    next date =>
      have uses : c.usesDate = true := by
        cases array : r.isArray <;> · rw [array] at h; cases h; rfl
      simp [uses, scalar, date]
    next other =>
      cases h
      simp [Conversion.usesDate, other]
  next notScalar =>
    obtain ⟨kind, -, h⟩ := bind_eq_ok.mp h
    have none : c.usesDate = false := by
      split at h
      · cases h
        rfl
      · split at h <;> · cases h; rfl
    simp [none, notScalar]

section Entity

variable {d : Definition} {v : EntityView}

/-- The class of the runtime library that a class extends, if it does. -/
def BaseClass.library? : BaseClass → Option String
  | generated _ => none
  | common name => some name

/-- The classes of the runtime library that generated classes extend. -/
theorem mem_of_baseClass_eq_common {base : String} (h : baseClass d = .common base) :
    d.parentName? = none ∧ base ∈ ["Entity", "Result", "Filter"] := by
  unfold baseClass at h
  split at h
  next => cases h
  next orphan =>
    refine ⟨orphan, ?_⟩
    split at h
    · cases h
      simp
    · split at h <;> · cases h; simp

theorem isWord_of_baseClass_eq_common {base : String} (h : baseClass d = .common base) :
    Naming.IsWord base := by
  have words : ∀ name ∈ ["Entity", "Result", "Filter"], Naming.IsWord name := by decide
  exact words base (mem_of_baseClass_eq_common h).2

theorem isWord_baseClass (d : Definition) : Naming.IsWord (baseClass d).name := by
  cases base : baseClass d with
  | common name => exact isWord_of_baseClass_eq_common base
  | generated cls =>
      unfold baseClass at base
      split at base
      next parent _ =>
        obtain rfl := BaseClass.generated.inj base
        exact Naming.isWord_className parent
      next =>
        split at base
        · cases base
        · split at base <;> cases base

/-- Whether a definition wraps values in the class of a type: those of a property, or the
items of a result. -/
def WrapsType (index : Index) (d : Definition) (n : String) : Prop :=
  (∃ p ∈ d.properties, Wraps index p.reference ∧ p.reference.element.name = n) ∨
    d.kind = .result ∧ ∃ r, d.itemType = some r ∧ Wraps index r ∧ r.element.name = n

/-- Whether a definition turns dates: those of a property, or the items of a result. -/
def TurnsDates (d : Definition) : Prop :=
  (∃ p ∈ d.properties, IsDated p.reference) ∨
    d.kind = .result ∧ ∃ r, d.itemType = some r ∧ IsDated r

/-- What the view of an entity is made of. -/
structure IsEntityView (l : Language) (index : Index) (d : Definition) (v : EntityView) : Prop where
  className : v.className = Naming.className d.name
  base : v.base = baseClass d
  properties : List.Forall₂ (fun p w => propertyView l index p = .ok w) d.properties v.properties
  item : itemView l index d = .ok v.item
  imports : v.imports = entityImports d v.properties v.item

theorem isEntityView (h : entityView l index d = .ok v) : IsEntityView l index d v := by
  obtain ⟨properties, members, h⟩ := bind_eq_ok.mp h
  obtain ⟨item, items, h⟩ := bind_eq_ok.mp h
  obtain rfl := Except.ok.inj h
  exact ⟨rfl, rfl, mapM_eq_ok.mp members, items, rfl⟩

theorem conversion_of_propertyView {p : Property} {w : PropertyView}
    (h : propertyView l index p = .ok w) : conversion index p.reference = .ok w.conversion :=
  (isPropertyView h).conversion

theorem conversion_of_itemView {i : ItemView} (h : itemView l index d = .ok (some i)) :
    d.kind = .result ∧ ∃ r, d.itemType = some r ∧ conversion index r = .ok i.conversion := by
  unfold itemView at h
  split at h
  next r result typed =>
    obtain ⟨c, converted, h⟩ := bind_eq_ok.mp h
    obtain ⟨doc, -, h⟩ := bind_eq_ok.mp h
    obtain rfl := Option.some.inj (Except.ok.inj h)
    exact ⟨result, r, typed, converted⟩
  next => cases h

/-- The items of a result have a view. -/
theorem exists_itemView {item : Option ItemView} (h : itemView l index d = .ok item)
    (result : d.kind = .result) (typed : d.itemType = some r) :
    ∃ i, item = some i ∧ conversion index r = .ok i.conversion := by
  simp only [itemView, result, typed] at h
  obtain ⟨c, converted, h⟩ := bind_eq_ok.mp h
  obtain ⟨doc, -, h⟩ := bind_eq_ok.mp h
  exact ⟨⟨c, doc⟩, (Except.ok.inj h).symm, converted⟩

namespace IsEntityView

variable (view : IsEntityView l index d v)
include view

theorem exists_property {w : PropertyView} (h : w ∈ v.properties) :
    ∃ p, (p, w) ∈ d.properties.zip v.properties ∧
      conversion index p.reference = .ok w.conversion := by
  obtain ⟨p, pair, viewed⟩ := exists_zip_right view.properties h
  exact ⟨p, pair, conversion_of_propertyView viewed⟩

/-- An import is the class of the supertype, of a property or of the items. -/
theorem mem_imports : cls ∈ v.imports ↔ cls ≠ v.className ∧
    ((∃ n, d.parentName? = some n ∧ Naming.className n = cls) ∨
      (∃ p w, (p, w) ∈ d.properties.zip v.properties ∧
        wrappedClass? p.reference w.conversion = some cls) ∨
      ∃ r i, d.itemType = some r ∧ v.item = some i ∧ wrappedClass? r i.conversion = some cls) := by
  rw [view.imports, entityImports, mem_foldl_remember, ← view.className]
  have items : (cls ∈ (d.itemType.toList.zip v.item.toList).filterMap fun p =>
      wrappedClass? p.1 p.2.conversion) ↔
      ∃ r i, d.itemType = some r ∧ v.item = some i ∧ wrappedClass? r i.conversion = some cls := by
    cases d.itemType <;> cases v.item <;> simp
  simp only [List.not_mem_nil, false_or, List.mem_append, items, List.mem_map, List.mem_filterMap,
    Option.mem_toList, Prod.exists, or_assoc]
  exact and_comm

theorem nodup_imports : v.imports.Nodup := by
  rw [view.imports]
  exact nodup_foldl_remember List.nodup_nil

/-- The imports are the classes of the supertype and of what is wrapped, but for the own
class. -/
theorem mem_imports_iff : cls ∈ v.imports ↔ cls ≠ v.className ∧
    ((∃ n, d.parentName? = some n ∧ Naming.className n = cls) ∨
      ∃ n, WrapsType index d n ∧ Naming.className n = cls) := by
  have members : (∃ p w, (p, w) ∈ d.properties.zip v.properties ∧
      wrappedClass? p.reference w.conversion = some cls) ↔
      ∃ p ∈ d.properties, Wraps index p.reference ∧
        Naming.className p.reference.element.name = cls := by
    constructor
    · rintro ⟨p, w, pair, wrapped⟩
      have converted := conversion_of_propertyView
        ((List.forall₂_iff_zip.mp view.properties).2 pair)
      exact ⟨p, (List.of_mem_zip pair).1, (wrappedClass?_eq_some_iff converted).mp wrapped⟩
    · rintro ⟨p, hp, wrapped⟩
      obtain ⟨w, pair, viewed⟩ := exists_zip_left view.properties hp
      exact ⟨p, w, pair,
        (wrappedClass?_eq_some_iff (conversion_of_propertyView viewed)).mpr wrapped⟩
  have items : (∃ r i, d.itemType = some r ∧ v.item = some i ∧
      wrappedClass? r i.conversion = some cls) ↔
      d.kind = .result ∧ ∃ r, d.itemType = some r ∧ Wraps index r ∧
        Naming.className r.element.name = cls := by
    constructor
    · rintro ⟨r, i, typed, viewed, wrapped⟩
      obtain ⟨result, s, same, converted⟩ := conversion_of_itemView (viewed ▸ view.item)
      obtain rfl := Option.some.inj (typed.symm.trans same)
      exact ⟨result, r, typed, (wrappedClass?_eq_some_iff converted).mp wrapped⟩
    · rintro ⟨result, r, typed, wrapped⟩
      obtain ⟨i, viewed, converted⟩ := exists_itemView view.item result typed
      exact ⟨r, i, typed, viewed, (wrappedClass?_eq_some_iff converted).mpr wrapped⟩
  rw [view.mem_imports, members, items]
  refine and_congr_right fun _ => or_congr_right ?_
  constructor
  · rintro (⟨p, hp, wraps, rfl⟩ | ⟨result, r, typed, wraps, rfl⟩)
    · exact ⟨_, .inl ⟨p, hp, wraps, rfl⟩, rfl⟩
    · exact ⟨_, .inr ⟨result, r, typed, wraps, rfl⟩, rfl⟩
  · rintro ⟨n, ⟨p, hp, wraps, rfl⟩ | ⟨result, r, typed, wraps, rfl⟩, rfl⟩
    · exact .inl ⟨p, hp, wraps, rfl⟩
    · exact .inr ⟨result, r, typed, wraps, rfl⟩

/-- The date helper is used where dates are turned. -/
theorem usesDate_iff : v.usesDate = true ↔ TurnsDates d := by
  rw [EntityView.usesDate, Bool.or_eq_true, List.any_eq_true, Option.any_eq_true]
  refine or_congr ?_ ?_
  · constructor
    · rintro ⟨w, hw, uses⟩
      obtain ⟨p, pair, converted⟩ := view.exists_property hw
      exact ⟨p, (List.of_mem_zip pair).1, (usesDate_iff_of_conversion converted).mp uses⟩
    · rintro ⟨p, hp, dated⟩
      obtain ⟨w, pair, viewed⟩ := exists_zip_left view.properties hp
      exact ⟨w, (List.of_mem_zip pair).2,
        (usesDate_iff_of_conversion (conversion_of_propertyView viewed)).mpr dated⟩
  · constructor
    · rintro ⟨i, viewed, uses⟩
      obtain ⟨result, r, typed, converted⟩ := conversion_of_itemView (viewed ▸ view.item)
      exact ⟨result, r, typed, (usesDate_iff_of_conversion converted).mp uses⟩
    · rintro ⟨result, r, typed, dated⟩
      obtain ⟨i, viewed, converted⟩ := exists_itemView view.item result typed
      exact ⟨i, viewed, (usesDate_iff_of_conversion converted).mpr dated⟩

/-- Every import belongs to a type that is defined. -/
theorem import_defined (parent : ∀ n, d.parentName? = some n → n ∈ index.map (·.name))
    (h : cls ∈ v.imports) : ∃ n ∈ index.map (·.name), cls = Naming.className n := by
  have wrapped {r : Reference} {c : Conversion} (converted : conversion index r = .ok c)
      (h : wrappedClass? r c = some cls) : ∃ n ∈ index.map (·.name), cls = Naming.className n := by
    unfold wrappedClass? at h
    split at h
    next wraps =>
      obtain ⟨other, hc⟩ := Conversion.wraps_iff.mp wraps
      exact ⟨_, (cls?_of_conversion converted hc).2.1, (Option.some.inj h).symm⟩
    next => cases h
  obtain ⟨-, ⟨n, hn, rfl⟩ | ⟨p, w, pair, h⟩ | ⟨r, i, typed, viewed, h⟩⟩ := view.mem_imports.mp h
  · exact ⟨n, parent n hn, rfl⟩
  · exact wrapped (conversion_of_propertyView ((List.forall₂_iff_zip.mp view.properties).2 pair)) h
  · obtain ⟨-, s, same, converted⟩ := conversion_of_itemView (viewed ▸ view.item)
    obtain rfl := Option.some.inj (typed.symm.trans same)
    exact wrapped converted h

theorem base_imported (h : v.base = .generated cls) : cls = v.className ∨ cls ∈ v.imports := by
  rw [view.base, baseClass] at h
  split at h
  next parent named =>
    by_cases own : cls = v.className
    · exact .inl own
    · exact .inr (view.mem_imports.mpr ⟨own, .inl ⟨parent, named, BaseClass.generated.inj h⟩⟩)
  next =>
    split at h
    · cases h
    · split at h <;> cases h

theorem property_imported {w : PropertyView} (h : w ∈ v.properties)
    (hc : w.conversion.cls? = some cls) :
    cls = v.className ∨ cls ∈ v.imports ∨
      (cls = "None" ∧ d.LacksItems) := by
  obtain ⟨p, pair, converted⟩ := view.exists_property h
  obtain ⟨notScalar, -, rfl⟩ := cls?_of_conversion converted hc
  rcases elementClass_cases notScalar with named | ⟨none, lacks⟩
  · by_cases own : elementClass p.reference = v.className
    · exact .inl own
    · refine .inr (.inl (view.mem_imports.mpr ⟨own, .inr (.inl ⟨p, w, pair, ?_⟩)⟩))
      rw [wrappedClass?, if_pos (Conversion.wraps_iff.mpr ⟨_, hc⟩), named]
  · exact .inr (.inr ⟨none, .inl ⟨p, (List.of_mem_zip pair).1, lacks⟩⟩)

theorem item_imported {i : ItemView} (h : v.item = some i) (hc : i.conversion.cls? = some cls) :
    cls = v.className ∨ cls ∈ v.imports ∨
      (cls = "None" ∧ d.LacksItems) := by
  obtain ⟨-, r, typed, converted⟩ := conversion_of_itemView (h ▸ view.item)
  obtain ⟨notScalar, -, rfl⟩ := cls?_of_conversion converted hc
  rcases elementClass_cases notScalar with named | ⟨none, lacks⟩
  · by_cases own : elementClass r = v.className
    · exact .inl own
    · refine .inr (.inl (view.mem_imports.mpr ⟨own, .inr (.inr ⟨r, i, typed, h, ?_⟩)⟩))
      rw [wrappedClass?, if_pos (Conversion.wraps_iff.mpr ⟨_, hc⟩), named]
  · exact .inr (.inr ⟨none, .inr ⟨r, typed, lacks⟩⟩)

end IsEntityView

end Entity

section Client

variable {client : String} {actions : List Action} {v : ClientView}

/-- The class of the objects that a reply constructs. -/
def Reply.cls? : Reply → Option String
  | nothing => none
  | data => none
  | entity cls => some cls
  | entities cls => some cls
  | result cls _ => some cls

theorem Reply.constructs_of_code? {reply : Reply} {c : Code} (h : reply.code? = some c) :
    c.constructs = reply.cls?.toList ∧ c.usesDate = false := by
  cases reply with
  | nothing => cases h
  | data => cases h
  | _ =>
      obtain rfl := Option.some.inj h
      exact ⟨rfl, rfl⟩

theorem cls?_of_replyOf {reply : Reply} (h : replyOf index r = .ok reply)
    (hc : reply.cls? = some cls) : ∃ c, conversion index r = .ok c ∧ c.cls? = some cls := by
  obtain ⟨c, converted, h⟩ := bind_eq_ok.mp h
  refine ⟨c, converted, ?_⟩
  cases c with
  | entity other =>
      obtain ⟨kind, -, h⟩ := bind_eq_ok.mp h
      obtain rfl := Except.ok.inj h
      split at hc <;> exact hc
  | entities other =>
      obtain rfl := Except.ok.inj h
      exact hc
  | _ =>
      obtain rfl := Except.ok.inj h
      cases hc

/-- What the view of a method is made of: the name of its action, and the reply that the
response type asks for. -/
structure IsMethodView (index : Index) (a : Action) (w : MethodView) : Prop where
  name : Naming.methodName a = .ok w.name
  reply : (∃ r, a.responseType = some r ∧ replyOf index r = .ok w.reply) ∨ w.reply = .nothing

theorem isMethodView {a : Action} {w : MethodView} (h : actionView l index a = .ok w) :
    IsMethodView index a w := by
  have view := isActionView h
  refine ⟨view.name, ?_⟩
  rcases replyOf_of_responseView view.response with ⟨-, nothing⟩ | replied
  · exact .inr nothing
  · exact .inl replied

/-- Every action of a client has a view. -/
theorem exists_methodView {taken : Taken} {methods : List MethodView}
    (h : methodViews l index taken actions = .ok methods) {a : Action} (ha : a ∈ actions) :
    ∃ w, IsMethodView index a w := by
  induction actions generalizing taken methods with
  | nil => cases ha
  | cons b rest ih =>
      obtain ⟨w, viewed, h⟩ := bind_eq_ok.mp h
      obtain ⟨more, tail, -⟩ := bind_eq_ok.mp h
      rcases List.mem_cons.mp ha with rfl | ha
      · exact ⟨w, isMethodView viewed⟩
      · exact ih tail ha

/-- Naming methods apart leaves their replies alone. -/
theorem exists_action_of_methodViews {taken : Taken} {methods : List MethodView}
    (h : methodViews l index taken actions = .ok methods) {m : MethodView} (hm : m ∈ methods) :
    ∃ a ∈ actions, ∃ w, IsMethodView index a w ∧ m.reply = w.reply := by
  induction actions generalizing taken methods with
  | nil =>
      cases h
      cases hm
  | cons a rest ih =>
      obtain ⟨w, viewed, h⟩ := bind_eq_ok.mp h
      obtain ⟨more, tail, h⟩ := bind_eq_ok.mp h
      obtain rfl := Except.ok.inj h
      rcases List.mem_cons.mp hm with rfl | hm
      · exact ⟨a, List.mem_cons_self, w, isMethodView viewed, rfl⟩
      · obtain ⟨b, hb, x, viewed, same⟩ := ih tail hm
        exact ⟨b, List.mem_cons_of_mem _ hb, x, viewed, same⟩

theorem mem_clientImports : cls ∈ clientImports actions ↔
    ∃ a ∈ actions, ∃ n ∈ a.dependsOn, Naming.className n = cls := by
  have fold (names imports : List String) : cls ∈ names.foldl (fun acc name =>
      let c := Naming.className name
      if acc.contains c then acc else acc ++ [c]) imports ↔
        cls ∈ imports ∨ ∃ n ∈ names, Naming.className n = cls := by
    induction names generalizing imports with
    | nil => simp
    | cons n rest ih =>
        rw [List.foldl_cons, ih]
        by_cases there : Naming.className n ∈ imports
        · simp only [List.contains_iff_mem.mpr there, if_true, List.mem_cons, exists_eq_or_imp]
          constructor
          · rintro (h | h)
            · exact .inl h
            · exact .inr (.inr h)
          · rintro (h | rfl | h)
            · exact .inl h
            · exact .inl there
            · exact .inr h
        · simp [there, or_assoc, eq_comm]
  rw [clientImports, fold]
  simp only [List.not_mem_nil, false_or, List.mem_flatMap]
  constructor
  · rintro ⟨n, ⟨a, ha, hn⟩, rfl⟩
    exact ⟨a, ha, n, hn, rfl⟩
  · rintro ⟨a, ha, n, hn, rfl⟩
    exact ⟨n, ⟨a, ha, hn⟩, rfl⟩

theorem nodup_clientImports (actions : List Action) : (clientImports actions).Nodup := by
  refine List.foldlRecOn _ _ List.nodup_nil fun acc once n _ => ?_
  by_cases there : Naming.className n ∈ acc
  · simpa [there] using once
  · simpa [there] using once.append (List.nodup_singleton _) (by simpa using there)

/-- What the view of a client is made of. -/
structure IsClientView (l : Language) (index : Index) (client : String) (actions : List Action)
    (v : ClientView) : Prop where
  className : v.className = Naming.clientClass client
  imports : v.imports = clientImports actions
  methods : methodViews l index [] actions = .ok v.methods

theorem isClientView (h : clientView l index client actions = .ok v) :
    IsClientView l index client actions v := by
  obtain ⟨methods, viewed, h⟩ := bind_eq_ok.mp h
  obtain rfl := Except.ok.inj h
  exact ⟨rfl, rfl, viewed⟩

/-- The class that a reply constructs is imported, if there is one. -/
theorem IsClientView.reply_imported (view : IsClientView l index client actions v)
    {m : MethodView} (hm : m ∈ v.methods) (hc : m.reply.cls? = some cls) :
    cls ∈ v.imports ∨ (cls = "None" ∧ ∃ a ∈ actions, a.LacksItems) := by
  obtain ⟨a, ha, w, viewed, same⟩ := exists_action_of_methodViews view.methods hm
  rw [same] at hc
  rcases viewed.reply with ⟨r, typed, replied⟩ | nothing
  · obtain ⟨c, converted, hc⟩ := cls?_of_replyOf replied hc
    obtain ⟨notScalar, -, rfl⟩ := cls?_of_conversion converted hc
    cases kind : r.element.kind with
    | scalar => exact absurd kind notScalar
    | type =>
        left
        rw [view.imports, mem_clientImports]
        refine ⟨a, ha, r.element.name, ?_, by simp [elementClass, elementClass?, kind]⟩
        simp [Action.dependsOn, typed, Reference.dependsOn, kind]
    | array =>
        right
        exact ⟨by simp [elementClass, elementClass?, kind], a, ha, r, typed, kind⟩
  · rw [nothing] at hc
    cases hc

end Client

end Emission

end ClientForge
