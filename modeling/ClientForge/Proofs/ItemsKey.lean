import ClientForge.Proofs.Emitted

/-!
# The key of a result's items

A result knows under which key its items are, and its class is constructed from the data together
with that key. Generated code constructs objects where a property is read, where the items of a
result are made and where a client makes its reply. Only a reply looks the key up, and only if the
result is not in a list. So a tree passes the key everywhere exactly if results are nowhere else:
in no property, among the items of no result and in no list of a response.
-/

namespace ClientForge.Emission

open ClientForge.Outcome

variable {l : Language} {index definitions : List Definition} {actions : List Action} {e : Emitter}
  {tree : Tree} {r : Reference} {file : SourceFile}

/-! ## Constructions -/

/-- A class that is constructed, with the key that it is given besides the data. -/
abbrev Construction := String × Option String

/-- The constructions in an expression. -/
def Code.constructions : Code → List Construction
  | argument _ => []
  | data => []
  | item => []
  | stored _ => []
  | orEmpty c => c.constructions
  | dateOf c => c.constructions
  | dateText c => c.constructions
  | construct cls c key => (cls, key) :: c.constructions
  | rawOf c => c.constructions
  | ifPresent t c => t.constructions ++ c.constructions
  | mapped l b _ => l.constructions ++ b.constructions

/-- The constructions in the body of a method. -/
def Body.constructions : Body → List Construction
  | give c => c.constructions
  | bindThenGive s c => s.constructions ++ c.constructions
  | store _ c => c.constructions

/-- The constructions where a client makes its reply. -/
def Reply.constructions (r : Reply) : List Construction := (r.code?.map (·.constructions)).getD []

/-- The constructions where the items of a result are made and in both accessors of each
property. -/
def EntityView.constructions (l : Language) (v : EntityView) : List Construction :=
  v.item.toList.flatMap (fun i => (Body.creating l i.conversion).constructions) ++
    v.properties.flatMap fun p => (Body.reading p.key p.conversion).constructions ++
      (Body.writing p.key p.variableName p.conversion).constructions

namespace SourceFile

/-- The constructions in the class of an entity. -/
def entityConstructions : SourceFile → List Construction
  | javascript (.entity _ v) => v.constructions .javascript
  | php (.entity _ _ v) => v.constructions .php
  | _ => []

/-- The constructions in a file: in the class of an entity, and in the replies of a client. -/
def constructions (file : SourceFile) : List Construction :=
  file.entityConstructions ++ file.methods.flatMap (·.reply.constructions)

end SourceFile

/-- No accessor and no maker of items passes a key. -/
theorem Body.constructions_reading (key : String) (c : Conversion) :
    (reading key c).constructions = c.cls?.toList.map (·, none) := by
  cases c <;> rfl

theorem Body.constructions_writing (key argument : String) (c : Conversion) :
    (writing key argument c).constructions = [] := by
  cases c <;> rfl

theorem Body.constructions_creating (l : Language) (c : Conversion) :
    (creating l c).constructions = c.cls?.toList.map (·, none) := by
  cases c <;> cases l <;> rfl

/-! ## What conversions construct -/

/-- Values that are wrapped are wrapped in the class of their element, item by item if the
reference is an array. -/
theorem conversion_of_wraps {c : Conversion} (h : conversion index r = .ok c)
    (wraps : Wraps index r) :
    c = if r.isArray then .entities (elementClass r) else .entity (elementClass r) := by
  obtain ⟨notScalar, kind, found, notEnum⟩ := wraps
  rw [conversion, if_neg notScalar, found, ok_bind, if_neg notEnum] at h
  split at h
  next array => rw [if_pos array]; exact (Except.ok.inj h).symm
  next single => rw [if_neg single]; exact (Except.ok.inj h).symm

theorem mem_cls?_iff {c : Conversion} (h : conversion index r = .ok c) {cls : String} :
    c.cls? = some cls ↔ Wraps index r ∧ cls = elementClass r := by
  constructor
  · intro wrapped
    have wraps := (wraps_iff_of_conversion h).mp (Conversion.wraps_iff.mpr ⟨cls, wrapped⟩)
    exact ⟨wraps, (cls?_of_conversion h wrapped).2.2⟩
  · rintro ⟨wraps, rfl⟩
    rw [conversion_of_wraps h wraps]
    split <;> rfl

/-- The key that a reply passes: that of the result that is named, unless it is in a list. -/
def replyKey (index : Index) (r : Reference) : Option String :=
  if r.isArray then none
  else (index.get? r.name).bind fun d => if d.kind = .result then d.itemsKey else none

theorem replyKey_eq_some_iff {key : String} : replyKey index r = some key ↔
    r.isArray = false ∧
      ∃ d, Index.get? index r.name = some d ∧ d.kind = .result ∧ d.itemsKey = some key := by
  rw [replyKey]
  cases r.isArray with
  | true => simp
  | false => simp [Option.bind_eq_some_iff]

/-- A reply constructs what its response type wraps, with the key that it looks up. -/
theorem mem_constructions_of_replyOf {reply : Reply} (h : replyOf index r = .ok reply)
    {c : Construction} :
    c ∈ reply.constructions ↔ Wraps index r ∧ c = (elementClass r, replyKey index r) := by
  obtain ⟨converted, found, h⟩ := bind_eq_ok.mp h
  by_cases wraps : Wraps index r
  · have same := conversion_of_wraps found wraps
    by_cases array : r.isArray = true
    · obtain rfl := same.trans (if_pos array)
      obtain rfl := Except.ok.inj h
      simp [Reply.constructions, Reply.code?, Code.constructions, wraps, replyKey, array]
    · obtain rfl := same.trans (if_neg array)
      -- The key is looked up under the name of the response, not under the name of its element.
      obtain ⟨kind, kindOf, h⟩ := bind_eq_ok.mp h
      obtain rfl := Except.ok.inj h
      unfold Index.kindOf at kindOf
      split at kindOf
      next d named =>
        obtain rfl := Except.ok.inj kindOf
        by_cases result : d.kind = .result <;>
          simp [Reply.constructions, Reply.code?, Code.constructions, wraps, replyKey, array,
            named, result]
      next => cases kindOf
  · have plain : converted.wraps ≠ true := fun h => wraps ((wraps_iff_of_conversion found).mp h)
    have given : reply = .data := by
      cases converted with
      | entity => exact absurd rfl plain
      | entities => exact absurd rfl plain
      | _ => exact (Except.ok.inj h).symm
    simp [given, Reply.constructions, Reply.code?, wraps]

/-! ## What files construct -/

/-- A construction that a tree holds: of the class of a property's element or of a result's items,
without a key, or of the class of a response's element, with the key that the reply looks up. -/
inductive IsConstructed (definitions : List Definition) (actions : List Action) :
    Construction → Prop
  | property {d : Definition} {p : Property} (hd : d ∈ definitions) (shown : d.kind ≠ .enum)
      (hp : p ∈ d.properties) (wraps : Wraps definitions p.reference) :
      IsConstructed definitions actions (elementClass p.reference, none)
  | items {d : Definition} {r : Reference} (hd : d ∈ definitions) (result : d.kind = .result)
      (typed : d.itemType = some r) (wraps : Wraps definitions r) :
      IsConstructed definitions actions (elementClass r, none)
  | response {a : Action} {r : Reference} (ha : a ∈ actions) (typed : a.responseType = some r)
      (wraps : Wraps definitions r) :
      IsConstructed definitions actions (elementClass r, replyKey definitions r)

section Files

variable {c : Construction} {d : Definition}

theorem mem_map_cls?_iff {converted : Conversion} (h : conversion index r = .ok converted) :
    c ∈ converted.cls?.toList.map (·, none) ↔ Wraps index r ∧ c = (elementClass r, none) := by
  simp only [List.mem_map, Option.mem_toList, mem_cls?_iff h]
  constructor
  · rintro ⟨cls, ⟨wraps, rfl⟩, rfl⟩
    exact ⟨wraps, rfl⟩
  · rintro ⟨wraps, rfl⟩
    exact ⟨_, ⟨wraps, rfl⟩, rfl⟩

/-- The class of an entity constructs what its properties and its items wrap, whatever language
it is printed in. -/
theorem mem_constructions_entityView {v : EntityView} (view : IsEntityView l index d v)
    (printed : Language) : c ∈ v.constructions printed ↔
      (∃ p ∈ d.properties, Wraps index p.reference ∧ c = (elementClass p.reference, none)) ∨
      d.kind = .result ∧ ∃ r, d.itemType = some r ∧ Wraps index r ∧ c = (elementClass r, none) := by
  rw [EntityView.constructions, List.mem_append, or_comm]
  refine or_congr ?_ ?_
  · simp only [List.mem_flatMap, Body.constructions_reading, Body.constructions_writing,
      List.append_nil]
    constructor
    · rintro ⟨w, hw, h⟩
      obtain ⟨p, pair, converted⟩ := view.exists_property hw
      exact ⟨p, (List.of_mem_zip pair).1, (mem_map_cls?_iff converted).mp h⟩
    · rintro ⟨p, hp, h⟩
      obtain ⟨w, pair, viewed⟩ := exists_zip_left view.properties hp
      exact ⟨w, (List.of_mem_zip pair).2,
        (mem_map_cls?_iff (conversion_of_propertyView viewed)).mpr h⟩
  · simp only [List.mem_flatMap, Option.mem_toList, Body.constructions_creating]
    constructor
    · rintro ⟨i, hi, h⟩
      obtain ⟨result, r, typed, converted⟩ := conversion_of_itemView (hi ▸ view.item)
      exact ⟨result, r, typed, (mem_map_cls?_iff converted).mp h⟩
    · rintro ⟨result, r, typed, h⟩
      obtain ⟨i, hi, converted⟩ := exists_itemView view.item result typed
      exact ⟨i, hi, (mem_map_cls?_iff converted).mpr h⟩

theorem mem_constructions_of_entitySource (source : entitySource e index d = .ok file) :
    c ∈ file.constructions ↔ d.kind ≠ .enum ∧
      ((∃ p ∈ d.properties, Wraps index p.reference ∧ c = (elementClass p.reference, none)) ∨
      d.kind = .result ∧ ∃ r, d.itemType = some r ∧ Wraps index r ∧
        c = (elementClass r, none)) := by
  rw [SourceFile.constructions, methods_of_entitySource source, List.flatMap_nil, List.append_nil]
  obtain ⟨v, view, shown⟩ := exists_view_of_entitySource source
  by_cases enum : d.kind = .enum
  · have none_ : file.entityConstructions = [] := by
      rcases shown with rfl | ⟨space, rfl⟩
      · rw [if_pos enum]
        rfl
      · rw [if_pos enum]
        rfl
    simp [none_, enum]
  · have some_ : ∃ printed, file.entityConstructions = v.constructions printed := by
      rcases shown with rfl | ⟨space, rfl⟩
      · rw [if_neg enum]
        exact ⟨.javascript, rfl⟩
      · rw [if_neg enum]
        exact ⟨.php, rfl⟩
    obtain ⟨printed, some_⟩ := some_
    rw [some_, mem_constructions_entityView view printed, and_iff_right enum]

theorem mem_constructions_of_clientSource {client : String}
    (source : clientSource e index client actions = .ok file) :
    c ∈ file.constructions ↔ ∃ a ∈ actions, ∃ r, a.responseType = some r ∧ Wraps index r ∧
      c = (elementClass r, replyKey index r) := by
  have none_ : file.entityConstructions = [] := by
    obtain ⟨v, -, ⟨-, rfl⟩ | ⟨-, space, rfl⟩⟩ := exists_view_of_clientSource source <;> rfl
  have calls := calls_of_clientSource source
  have replies {a : Action} {m : MethodView} (called : Calls e.language index a m) :
      c ∈ m.reply.constructions ↔ ∃ r, a.responseType = some r ∧ Wraps index r ∧
        c = (elementClass r, replyKey index r) := by
    obtain ⟨w, viewed, same⟩ := called
    have reply : m.reply = w.reply := by rw [same]
    rw [reply]
    rcases replyOf_of_responseView (isActionView viewed).response with
      ⟨none_, nothing⟩ | ⟨r, typed, replied⟩
    · have given : w.reply = .nothing := nothing
      simp [none_, given, Reply.constructions, Reply.code?]
    · rw [mem_constructions_of_replyOf replied]
      simp [typed]
  rw [SourceFile.constructions, none_, List.nil_append, List.mem_flatMap]
  constructor
  · rintro ⟨m, hm, h⟩
    obtain ⟨a, pair, called⟩ := exists_zip_right calls hm
    exact ⟨a, (List.of_mem_zip pair).1, (replies called).mp h⟩
  · rintro ⟨a, ha, h⟩
    obtain ⟨m, pair, called⟩ := exists_zip_left calls ha
    exact ⟨m, (List.of_mem_zip pair).2, (replies called).mpr h⟩

theorem constructions_of_supportFiles {clients : List String} {support : Tree}
    (made : supportFiles e index clients = .ok support) {entry : String × SourceFile}
    (h : entry ∈ support) : entry.2.constructions = [] := by
  have methods : entry.2.methods = [] :=
    List.flatMap_eq_nil_iff.mp (methods_of_supportFiles made) entry h
  rw [SourceFile.constructions, methods, List.flatMap_nil, List.append_nil]
  cases l : e.language with
  | javascript =>
      obtain ⟨name, version, rfl⟩ := supportFiles_javascript l made
      simp only [List.mem_cons, List.not_mem_nil, or_false] at h
      rcases h with rfl | rfl | rfl <;> rfl
  | php =>
      obtain ⟨space, name, version, requirement, baseUrl, -, rfl⟩ := supportFiles_php l made
      simp only [List.mem_cons, List.not_mem_nil, or_false] at h
      rcases h with rfl | rfl | rfl <;> rfl

/-- The constructions of a tree are those of the properties, the items and the responses that it
is made from. -/
theorem exists_mem_constructions_iff (rendered : render e definitions actions = .ok tree) :
    (∃ entry ∈ tree, c ∈ entry.2.constructions) ↔ IsConstructed definitions actions c := by
  obtain ⟨-, entities, clients, support, rfl, parts⟩ := render_eq_ok.mp rendered
  constructor
  · rintro ⟨entry, he, h⟩
    rcases parts.cases_of_mem he with ⟨d, hd, -, source⟩ | ⟨group, hg, -, -, source⟩ | member
    · rw [mem_constructions_of_entitySource source] at h
      obtain ⟨shown, ⟨p, hp, wraps, rfl⟩ | ⟨result, r, typed, wraps, rfl⟩⟩ := h
      · exact .property hd shown hp wraps
      · exact .items hd result typed wraps
    · obtain ⟨a, ha, r, typed, wraps, rfl⟩ := (mem_constructions_of_clientSource source).mp h
      exact .response (mem_groupByClient hg ha).1 typed wraps
    · rw [constructions_of_supportFiles parts.others member] at h
      cases h
  · intro constructed
    cases constructed with
    | property hd shown hp wraps =>
        obtain ⟨file, source, there⟩ := parts.exists_entity hd
        exact ⟨_, there, (mem_constructions_of_entitySource source).mpr
          ⟨shown, .inl ⟨_, hp, wraps, rfl⟩⟩⟩
    | items hd result typed wraps =>
        obtain ⟨file, source, there⟩ := parts.exists_entity hd
        exact ⟨_, there, (mem_constructions_of_entitySource source).mpr
          ⟨by simp [result], .inr ⟨result, _, typed, wraps, rfl⟩⟩⟩
    | response ha typed wraps =>
        obtain ⟨group, hg, member⟩ := exists_group ha
        obtain ⟨file, source, there⟩ := parts.exists_client hg
        exact ⟨_, there, (mem_constructions_of_clientSource source).mpr
          ⟨_, member, _, typed, wraps, rfl⟩⟩

end Files

/-! ## Where keys are passed -/

/-- Whether a construction passes the key of every result whose class it is of. -/
def PassesKey (index : Index) (c : Construction) : Prop :=
  ∀ d ∈ index, d.kind = .result → Naming.className d.name = c.1 →
    ∃ key, d.itemsKey = some key ∧ c.2 = some key

/-- A result in whose class values of a reference are wrapped. -/
structure WrapsIn (index : Index) (r : Reference) (d : Definition) : Prop where
  wraps : Wraps index r
  listed : d ∈ index
  result : d.kind = .result
  cls : Naming.className d.name = elementClass r

/-- Whether a reference names, outright and not in a list, a result with the key of another one. -/
def NamesKeyOf (index : Index) (r : Reference) (d : Definition) : Prop :=
  r.isArray = false ∧
    ∃ named, index.get? r.name = some named ∧ named.kind = .result ∧ named.itemsKey = d.itemsKey

/-- Whether results are replied outright, and are in no property and among the items of no
result. -/
structure RepliesResults (definitions : List Definition) (actions : List Action) : Prop where
  properties : ∀ d ∈ definitions, d.kind ≠ .enum → ∀ p ∈ d.properties, ∀ result,
    ¬ WrapsIn definitions p.reference result
  items : ∀ d ∈ definitions, d.kind = .result → ∀ r, d.itemType = some r → ∀ result,
    ¬ WrapsIn definitions r result
  responses : ∀ a ∈ actions, ∀ r, a.responseType = some r → ∀ result,
    WrapsIn definitions r result → NamesKeyOf definitions r result

/-- What is constructed without a key passes no key of a result. -/
theorem not_wrapsIn_of_passesKey {key : Option String}
    (passes : PassesKey index (elementClass r, key)) (none_ : key = none) (d : Definition) :
    ¬ WrapsIn index r d := by
  rintro ⟨-, listed, result, cls⟩
  obtain ⟨k, -, given⟩ := passes d listed result cls
  cases none_.symm.trans given

/-- The file of a client is not made if a result that it replies lacks its key. -/
theorem lacksKey_of_clientSource {client : String}
    (source : clientSource e index client actions = .ok file) :
    ∀ m ∈ file.methods, m.reply.lacksKey = false := by
  have finish {v : ClientView} {made : SourceFile} (shows : made.methods = v.methods)
      (checked : (if v.methods.any (·.reply.lacksKey) then misused .noSuchPart else .ok made) =
        .ok file) : ∀ m ∈ file.methods, m.reply.lacksKey = false := by
    split at checked
    next => cases checked
    next keyed =>
      obtain rfl := Except.ok.inj checked
      simpa [shows] using keyed
  cases l : e.language with
  | javascript =>
      simp only [clientSource, l] at source
      obtain ⟨v, -, source⟩ := bind_eq_ok.mp source
      obtain ⟨common, -, checked⟩ := bind_eq_ok.mp source
      exact finish rfl checked
  | php =>
      simp only [clientSource, l] at source
      obtain ⟨v, -, source⟩ := bind_eq_ok.mp source
      obtain ⟨space, -, source⟩ := bind_eq_ok.mp source
      obtain ⟨common, -, checked⟩ := bind_eq_ok.mp source
      exact finish rfl checked

/-- In a rendered tree a result that a response names outright has a key. -/
theorem isSome_itemsKey_of_render (rendered : render e definitions actions = .ok tree) {a : Action}
    (ha : a ∈ actions) (typed : a.responseType = some r) (wraps : Wraps definitions r)
    (single : r.isArray = false) {d : Definition} (named : Index.get? definitions r.name = some d)
    (result : d.kind = .result) : ∃ key, d.itemsKey = some key := by
  obtain ⟨-, entities, clients, support, rfl, parts⟩ := render_eq_ok.mp rendered
  obtain ⟨group, hg, member⟩ := exists_group ha
  obtain ⟨file, source, -⟩ := parts.exists_client hg
  obtain ⟨m, pair, w, viewed, same⟩ :=
    exists_zip_left (calls_of_clientSource source) member
  have keyed : w.reply.lacksKey = false := by
    have reply : m.reply = w.reply := by rw [same]
    rw [← reply]
    exact lacksKey_of_clientSource source m (List.of_mem_zip pair).2
  rcases replyOf_of_responseView (isActionView viewed).response with
    ⟨none_, -⟩ | ⟨r', typed', replied⟩
  · cases none_.symm.trans typed
  · obtain rfl := Option.some.inj (typed'.symm.trans typed)
    obtain ⟨converted, found, replied⟩ := bind_eq_ok.mp replied
    obtain rfl := (conversion_of_wraps found wraps).trans (if_neg (by simp [single]))
    simp only [Index.kindOf, named, ok_bind, result, pure_eq, if_true, Option.bind_some] at replied
    have reply := Except.ok.inj replied
    cases known : d.itemsKey with
    | some key => exact ⟨key, rfl⟩
    | none =>
        rw [known] at reply
        rw [← reply] at keyed
        cases keyed

/-- A response that is well-formed names the result that its values are wrapped in, unless it is
an array. -/
theorem namesKeyOf_iff (once : (definitions.map fun d => Naming.className d.name).Nodup)
    (wellFormed : r.WellFormed) {d : Definition} (wrapsIn : WrapsIn definitions r d) :
    NamesKeyOf definitions r d ↔ r.isArray = false := by
  refine ⟨fun names => names.1, fun single => ⟨single, ?_⟩⟩
  -- No two definitions have a class in common, so what is named is the result itself.
  obtain ⟨⟨notScalar, kind, found, -⟩, listed, result, cls⟩ := wrapsIn
  cases wellFormed with
  | scalar s => exact absurd rfl notScalar
  | array items => cases single
  | named n =>
      unfold Index.kindOf at found
      split at found
      next named there =>
        obtain ⟨member, name⟩ := Index.mem_of_get?_eq_some there
        obtain rfl : named = d :=
          List.inj_on_of_nodup_map once member listed (by rw [name, cls]; rfl)
        exact ⟨named, there, result, rfl⟩
      next => cases found

/-- All constructions pass the keys of results exactly if results are only replied outright. -/
theorem passesKey_iff_repliesResults (rendered : render e definitions actions = .ok tree) :
    (∀ c, IsConstructed definitions actions c → PassesKey definitions c) ↔
      RepliesResults definitions actions := by
  constructor
  · intro passes
    refine ⟨fun d hd shown p hp result wrapsIn => ?_, fun d hd kind r typed result wrapsIn => ?_,
      fun a ha r typed result wrapsIn => ?_⟩
    · exact not_wrapsIn_of_passesKey (passes _ (.property hd shown hp wrapsIn.wraps)) rfl _ wrapsIn
    · exact not_wrapsIn_of_passesKey (passes _ (.items hd kind typed wrapsIn.wraps)) rfl _ wrapsIn
    · obtain ⟨key, known, given⟩ := passes _ (.response ha typed wrapsIn.wraps) result
        wrapsIn.listed wrapsIn.result wrapsIn.cls
      obtain ⟨single, named, there, kind, same⟩ := replyKey_eq_some_iff.mp given
      exact ⟨single, named, there, kind, same.trans known.symm⟩
  · intro replies c constructed result listed kind cls
    cases constructed with
    | property hd shown hp wraps =>
        exact (replies.properties _ hd shown _ hp result ⟨wraps, listed, kind, cls⟩).elim
    | items hd outer typed wraps =>
        exact (replies.items _ hd outer _ typed result ⟨wraps, listed, kind, cls⟩).elim
    | response ha typed wraps =>
        obtain ⟨single, named, there, outer, same⟩ :=
          replies.responses _ ha _ typed result ⟨wraps, listed, kind, cls⟩
        obtain ⟨key, known⟩ :=
          isSome_itemsKey_of_render rendered ha typed wraps single there outer
        exact ⟨key, same ▸ known, replyKey_eq_some_iff.mpr ⟨single, named, there, outer, known⟩⟩

/-- A rendered tree passes the key of its items wherever it constructs a result exactly if results
are only replied outright. Where the responses are well-formed, as documents give them, that is: no
property, no item of a result and no response in a list is of a result. -/
theorem render_passes_keys_iff (rendered : render e definitions actions = .ok tree) :
    ((∀ path file, (path, file) ∈ tree → ∀ c ∈ file.constructions, PassesKey definitions c) ↔
      RepliesResults definitions actions) ∧
    ((∀ a ∈ actions, ∀ r, a.responseType = some r → r.WellFormed) →
      (RepliesResults definitions actions ↔
        (∀ d ∈ definitions, d.kind ≠ .enum → ∀ p ∈ d.properties, ∀ result,
          ¬ WrapsIn definitions p.reference result) ∧
        (∀ d ∈ definitions, d.kind = .result → ∀ r, d.itemType = some r → ∀ result,
          ¬ WrapsIn definitions r result) ∧
        ∀ a ∈ actions, ∀ r, a.responseType = some r → ∀ result,
          WrapsIn definitions r result → r.isArray = false)) := by
  constructor
  · rw [← passesKey_iff_repliesResults rendered]
    simp only [← exists_mem_constructions_iff rendered]
    constructor
    · rintro passes c ⟨entry, he, h⟩
      exact passes entry.1 entry.2 he c h
    · exact fun passes path file h c hc => passes c ⟨_, h, hc⟩
  · intro wellFormed
    obtain ⟨-, entities, clients, support, rfl, parts⟩ := render_eq_ok.mp rendered
    have outright {a : Action} (ha : a ∈ actions) {r : Reference} (typed : a.responseType = some r)
        {result : Definition} (wrapsIn : WrapsIn definitions r result) :
        NamesKeyOf definitions r result ↔ r.isArray = false :=
      namesKeyOf_iff parts.nodup_classNames (wellFormed a ha r typed) wrapsIn
    constructor
    · intro replies
      exact ⟨replies.properties, replies.items, fun a ha r typed result wrapsIn =>
        (outright ha typed wrapsIn).mp (replies.responses a ha r typed result wrapsIn)⟩
    · rintro ⟨properties, items, responses⟩
      exact ⟨properties, items, fun a ha r typed result wrapsIn =>
        (outright ha typed wrapsIn).mpr (responses a ha r typed result wrapsIn)⟩

/-- Sums of money, which a result lists under the key `sums`. -/
def sums : Definition :=
  { name := "Sums", kind := .result, itemsKey := some "sums", itemType := some (.named "Money") }

/-- A result that is only replied outright is given its key everywhere. -/
theorem sums_given_key : ∃ tree,
    render ⟨⟨.php, .str "acme", .str "bank", .null⟩, .str "Lib", .str "", .str "1", true⟩
      [{ name := "Money" }, sums] [{ path := "/sums", responseType := some (.named "Sums") }] =
        .ok tree ∧
    ∀ path file, (path, file) ∈ tree → ∀ c ∈ file.constructions,
      PassesKey [{ name := "Money" }, sums] c := by
  have rendered : render
      ⟨⟨.php, .str "acme", .str "bank", .null⟩, .str "Lib", .str "", .str "1", true⟩
      [{ name := "Money" }, sums] [{ path := "/sums", responseType := some (.named "Sums") }] =
        .ok _ := rfl
  obtain ⟨passes, outright⟩ := render_passes_keys_iff rendered
  have outrightly : ∀ a ∈ [({ path := "/sums", responseType := some (.named "Sums") } : Action)],
      ∀ r, a.responseType = some r → r = .named "Sums" := by
    simp [eq_comm]
  refine ⟨_, rendered, passes.mpr ((outright fun a ha r typed => ?_).mpr ⟨?_, ?_, ?_⟩)⟩
  · exact outrightly a ha r typed ▸ .named "Sums"
  · simp [sums]
  · intro d hd result r typed other wrapsIn
    have money : r = .named "Money" := by
      rcases List.mem_pair.mp hd with rfl | rfl
      · cases result
      · exact (Option.some.inj typed).symm
    have named : Naming.className other.name = "Money" := by rw [wrapsIn.cls, money]; rfl
    rcases List.mem_pair.mp wrapsIn.listed with rfl | rfl
    · cases wrapsIn.result
    · exact absurd named (by decide)
  · exact fun a ha r typed _ _ => outrightly a ha r typed ▸ rfl

/-- A result in a property, and one in a list of a response: neither is given the key. -/
theorem sums_without_key : ∃ tree account client,
    render ⟨⟨.javascript, .str "", .str "bank", .null⟩, .str "lib", .str "", .str "1", true⟩
      [{ name := "Money" }, sums,
        { name := "Account", properties := [⟨"total", "Sums", .named "Sums", false, none⟩] }]
      [{ path := "/sums", responseType := some (.array (.named "Sums")) }] = .ok tree ∧
    ("src/entity/Account.js", account) ∈ tree ∧
      "        return data === null || typeof data === 'undefined' ? null : new Sums(data);" ∈
        account.lines ∧ account.constructions = [("Sums", none)] ∧
    ("src/service/TransferClient.js", client) ∈ tree ∧
      "                return data.map(item => new Sums(item));" ∈ client.lines ∧
      client.constructions = [("Sums", none)] ∧
    ¬ PassesKey [{ name := "Money" }, sums] ("Sums", none) := by
  refine ⟨_, _, _, rfl, .tail _ (.tail _ (.head _)), ?_, ?_, .tail _ (.tail _ (.tail _ (.head _))),
    ?_, ?_, ?_⟩
  · decide
  · decide
  · decide +kernel
  · decide
  · intro passes
    obtain ⟨key, -, given⟩ := passes sums (by simp) rfl (by decide)
    cases given

end ClientForge.Emission
