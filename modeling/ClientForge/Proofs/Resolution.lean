import ClientForge.Proofs.Lookup
import ClientForge.Proofs.Rendering

/-!
# Resolution of references

The places from which types are referred to, in the order of emission: for each
definition its supertype, its properties and its items, then for each action its request
and its response. Rendering refuses the first of these that names a type which is not
defined, says so, and says nothing of the kind otherwise. For the definitions and
actions of a document the check is complete: where it passes, no look-up misses.
-/

namespace ClientForge.Emission

open ClientForge.Outcome

/-- A place from which a type may be referred to. -/
inductive Site
  | parent (d : Definition)
  | property (d : Definition) (p : Property)
  | item (d : Definition)
  | request (a : Action)
  | response (a : Action)

namespace Site

/-- The type that a place names, through any number of arrays. -/
inductive Names : Site → String → Prop
  | parent {d : Definition} {n : String} (h : d.parent = some n) : Names (parent d) n
  | property {d : Definition} {p : Property} {n : String} (h : p.reference.Names n) :
      Names (property d p) n
  | item {d : Definition} {r : Reference} {n : String} (h : d.itemType = some r)
      (hn : r.Names n) : Names (item d) n
  | request {a : Action} {r : Reference} {n : String} (h : a.requestType = some r)
      (hn : r.Names n) : Names (request a) n
  | response {a : Action} {r : Reference} {n : String} (h : a.responseType = some r)
      (hn : r.Names n) : Names (response a) n

/-- Who refers to the type. -/
def referrer : Site → String
  | parent d => "type " ++ d.name
  | property d _ => "type " ++ d.name
  | item d => "type " ++ d.name
  | request a => a.describe
  | response a => a.describe

/-- The type that the check looks for at a place. -/
def target? : Site → Option String
  | parent d => d.parentName?
  | property _ p => p.reference.target?
  | item d => d.itemType.bind (·.target?)
  | request a => a.requestType.bind (·.target?)
  | response a => a.responseType.bind (·.target?)

/-- What the check notes about a place. -/
def reference? (s : Site) : Option (String × String) := s.target?.map (·, s.referrer)

/-- The places of a definition. -/
def ofDefinition (d : Definition) : List Site :=
  parent d :: (d.properties.map (property d) ++ [item d])

/-- The places of an action. -/
def ofAction (a : Action) : List Site := [request a, response a]

end Site

/-- The places of a build in the order of emission. -/
def sites (definitions : List Definition) (actions : List Action) : List Site :=
  definitions.flatMap Site.ofDefinition ++ actions.flatMap Site.ofAction

variable {e : Emitter} {definitions : List Definition} {actions : List Action}
  {missing referrer : String} {l : Language}

theorem references_of_definition (d : Definition) :
    d.dependsOn.map (·, "type " ++ d.name) = (Site.ofDefinition d).filterMap Site.reference? := by
  have items : d.itemType.toList.flatMap (·.dependsOn) = (Site.item d).target?.toList := by
    cases h : d.itemType with
    | none => simp [Site.target?, h]
    | some r => simp [Site.target?, h, Reference.dependsOn_eq]
  rw [List.filterMap_eq_flatMap_toList, Site.ofDefinition, List.flatMap_cons, List.flatMap_append,
    List.flatMap_map, List.flatMap_singleton, Definition.dependsOn, items]
  simp only [Site.reference?, Site.target?, Site.referrer, Reference.dependsOn_eq,
    Option.toList_map, List.map_append, List.map_flatMap, List.append_assoc]

theorem references_of_action (a : Action) :
    a.dependsOn.map (·, a.describe) = (Site.ofAction a).filterMap Site.reference? := by
  have payload (r : Option Reference) :
      r.toList.flatMap (·.dependsOn) = (r.bind (·.target?)).toList := by
    cases r with
    | none => rfl
    | some r => simp [Reference.dependsOn_eq]
  rw [List.filterMap_eq_flatMap_toList, Site.ofAction, Action.dependsOn, payload, payload]
  simp [Site.reference?, Site.target?, Site.referrer, Option.toList_map]

/-- The references of a build are those of its places in order. -/
theorem references_eq (definitions : List Definition) (actions : List Action) :
    references definitions actions = (sites definitions actions).filterMap Site.reference? := by
  simp only [references, sites, List.filterMap_append, List.filterMap_flatMap,
    references_of_definition, references_of_action]

/-- In a document's definition the check looks for what a place names. -/
theorem Site.target?_of_definition {d : Definition} {site : Site} {n : String}
    (wellFormed : d.WellFormed) (h : site ∈ Site.ofDefinition d) :
    site.target? = some n ↔ site.Names n := by
  rw [Site.ofDefinition, List.mem_cons, List.mem_append, List.mem_map, List.mem_singleton] at h
  rcases h with rfl | ⟨p, hp, rfl⟩ | rfl
  · constructor
    · intro h
      exact .parent (Option.filter_eq_some_iff.mp h).1
    · rintro ⟨h⟩
      refine Option.filter_eq_some_iff.mpr ⟨h, decide_eq_true ?_⟩
      rintro rfl
      exact wellFormed.parent h
  · constructor
    · intro h
      exact .property ((wellFormed.properties p hp).target?_eq_some.mp h)
    · rintro ⟨⟩
      next h => exact (wellFormed.properties p hp).target?_eq_some.mpr h
  · constructor
    · intro h
      obtain ⟨r, hr, h⟩ := Option.bind_eq_some_iff.mp h
      exact .item hr ((wellFormed.items r hr).target?_eq_some.mp h)
    · rintro ⟨⟩
      next r hr h =>
        exact Option.bind_eq_some_iff.mpr ⟨r, hr, (wellFormed.items r hr).target?_eq_some.mpr h⟩

/-- In a document's action the check looks for what a place names. -/
theorem Site.target?_of_action {a : Action} {site : Site} {n : String}
    (wellFormed : a.WellFormed) (h : site ∈ Site.ofAction a) :
    site.target? = some n ↔ site.Names n := by
  rcases List.mem_pair.mp h with rfl | rfl
  · constructor
    · intro h
      obtain ⟨r, hr, h⟩ := Option.bind_eq_some_iff.mp h
      exact .request hr ((wellFormed.request r hr).target?_eq_some.mp h)
    · rintro ⟨⟩
      next r hr h =>
        exact Option.bind_eq_some_iff.mpr ⟨r, hr, (wellFormed.request r hr).target?_eq_some.mpr h⟩
  · constructor
    · intro h
      obtain ⟨r, hr, h⟩ := Option.bind_eq_some_iff.mp h
      exact .response hr ((wellFormed.response r hr).target?_eq_some.mp h)
    · rintro ⟨⟩
      next r hr h =>
        exact Option.bind_eq_some_iff.mpr
          ⟨r, hr, (wellFormed.response r hr).target?_eq_some.mpr h⟩

/-- A place names a type that is not defined. -/
def Site.Dangles (definitions : List Definition) (site : Site) (n : String) : Prop :=
  site.Names n ∧ n ∉ definitions.map (·.name)

section Document

variable (definitionsWell : ∀ d ∈ definitions, d.WellFormed)
  (actionsWell : ∀ a ∈ actions, a.WellFormed)
include definitionsWell actionsWell

/-- In a document the check looks for what a place names. -/
theorem Site.target?_eq_some {site : Site} (h : site ∈ sites definitions actions) {n : String} :
    site.target? = some n ↔ site.Names n := by
  rcases List.mem_append.mp h with h | h
  · obtain ⟨d, hd, h⟩ := List.mem_flatMap.mp h
    exact Site.target?_of_definition (definitionsWell d hd) h
  · obtain ⟨a, ha, h⟩ := List.mem_flatMap.mp h
    exact Site.target?_of_action (actionsWell a ha) h

theorem Site.dangles_iff {site : Site} (h : site ∈ sites definitions actions) :
    (site.reference?.any fun r => !Index.has definitions r.1) = true ↔
      ∃ n, site.Dangles definitions n := by
  simp only [Site.Dangles, ← Site.target?_eq_some definitionsWell actionsWell h]
  cases target : site.target? <;> simp [Site.reference?, target]

/-- The check of a document finds the first place that dangles. -/
theorem dangling?_eq_some_iff :
    dangling? definitions actions = some (missing, referrer) ↔
      ∃ before site after, sites definitions actions = before ++ site :: after ∧
        site.Dangles definitions missing ∧ site.referrer = referrer ∧
        ∀ earlier ∈ before, ∀ n, ¬ earlier.Dangles definitions n := by
  rw [dangling?, references_eq, List.find?_filterMap, Option.bind_eq_some_iff]
  constructor
  · rintro ⟨site, found, noted⟩
    obtain ⟨dangling, before, after, split, earlier⟩ := List.find?_eq_some_iff_append.mp found
    have member : site ∈ sites definitions actions := by simp [split]
    obtain ⟨n, names, unknown⟩ := (Site.dangles_iff definitionsWell actionsWell member).mp dangling
    rw [Site.reference?, (Site.target?_eq_some definitionsWell actionsWell member).mpr names]
      at noted
    obtain ⟨rfl, rfl⟩ := Prod.mk.inj (Option.some.inj noted)
    refine ⟨before, site, after, split, ⟨names, unknown⟩, rfl, ?_⟩
    intro other h n dangling
    have quiet := earlier other h
    have member : other ∈ sites definitions actions := by simp [split, h]
    rw [(Site.dangles_iff definitionsWell actionsWell member).mpr ⟨n, dangling⟩] at quiet
    cases quiet
  · rintro ⟨before, site, after, split, dangling, rfl, earlier⟩
    have member : site ∈ sites definitions actions := by simp [split]
    refine ⟨site, List.find?_eq_some_iff_append.mpr
      ⟨(Site.dangles_iff definitionsWell actionsWell member).mpr ⟨missing, dangling⟩,
        before, after, split, ?_⟩, ?_⟩
    · intro other h
      have member : other ∈ sites definitions actions := by simp [split, h]
      have quiet := (Site.dangles_iff definitionsWell actionsWell member).not.mpr
        (not_exists.mpr (earlier other h))
      simpa using quiet
    · rw [Site.reference?,
        (Site.target?_eq_some definitionsWell actionsWell member).mpr dangling.1]
      rfl

/-- The check of a document passes if no place dangles. -/
theorem dangling?_eq_none_iff :
    dangling? definitions actions = none ↔
      ∀ site ∈ sites definitions actions, ∀ n, ¬ site.Dangles definitions n := by
  rw [dangling?, references_eq, List.find?_eq_none]
  constructor
  · intro passes site member n dangling
    have target := (Site.target?_eq_some definitionsWell actionsWell member).mpr dangling.1
    have noted : (n, site.referrer) ∈ (sites definitions actions).filterMap Site.reference? :=
      List.mem_filterMap.mpr ⟨site, member, by rw [Site.reference?, target]; rfl⟩
    exact dangling.2 (by simpa using passes _ noted)
  · intro quiet r noted
    obtain ⟨site, member, noted⟩ := List.mem_filterMap.mp noted
    obtain ⟨n, target, rfl⟩ := Option.map_eq_some_iff.mp noted
    have names := (Site.target?_eq_some definitionsWell actionsWell member).mp target
    have known : n ∈ definitions.map (·.name) := by
      by_contra unknown
      exact quiet site member n ⟨names, unknown⟩
    simpa using known

end Document

section Files

variable {bad : Failure → Prop} (allowed : ∀ path, ¬ bad (.emission (.collision path)))
  {index : Index}
include allowed

theorem avoids_addEntities (each : ∀ d ∈ definitions, Avoids bad (entitySource e index d))
    (tree : Tree) : Avoids bad (addEntities e index definitions tree) := by
  induction definitions generalizing tree with
  | nil => exact Avoids.ok _
  | cons d rest ih =>
      refine Avoids.bind (each d List.mem_cons_self) fun _ _ => ?_
      refine Avoids.bind (avoids_add allowed _ _ _) fun _ _ => ?_
      exact ih (fun c hc => each c (List.mem_cons_of_mem _ hc)) _

theorem avoids_addClients {groups : Table (List Action)}
    (named : e.namesClients = true ∨ ¬ bad (.misuse .wrongType))
    (each : ∀ g ∈ groups, Avoids bad (clientSource e index g.1 g.2)) (tree : Tree) :
    Avoids bad (addClients e index groups tree) := by
  induction groups generalizing tree with
  | nil => exact Avoids.ok _
  | cons g rest ih =>
      have goesOn : Avoids bad (clientSource e index g.1 g.2 >>= fun file =>
          tree.add (Naming.clientFile e.language g.1) file >>= addClients e index rest) := by
        refine Avoids.bind (each g List.mem_cons_self) fun _ _ => ?_
        refine Avoids.bind (avoids_add allowed _ _ _) fun _ _ => ?_
        exact ih (fun c hc => each c (List.mem_cons_of_mem _ hc)) _
      cases names : e.namesClients with
      | false =>
          have other : ¬ bad (.misuse .wrongType) := named.resolve_left (by simp [names])
          simpa [addClients, names, misused] using other
      | true => simpa [addClients, names] using goesOn

/-- Once no reference dangles, rendering avoids what each of its files avoids. -/
theorem avoids_render (checked : dangling? definitions actions = none)
    (entities : ∀ d ∈ definitions, Avoids bad (entitySource e definitions d))
    (named : actions = [] ∨ e.namesClients = true ∨ ¬ bad (.misuse .wrongType))
    (clients : ∀ g ∈ groupByClient actions, Avoids bad (clientSource e definitions g.1 g.2))
    (support : ∀ names, Avoids bad (supportFiles e definitions names)) :
    Avoids bad (render e definitions actions) := by
  rw [render, checkReferences, checked]
  refine Avoids.bind (Avoids.ok ()) fun _ _ => ?_
  refine Avoids.bind (avoids_addEntities allowed entities _) fun tree _ => ?_
  have groups : Avoids bad (addClients e definitions (groupByClient actions) tree) := by
    rcases named with rfl | named
    · exact Avoids.ok _
    · exact avoids_addClients allowed named clients tree
  refine Avoids.bind groups fun _ _ => ?_
  exact Avoids.bind (support _) fun _ _ => avoids_addFiles allowed _ _

end Files

section Document

variable (definitionsWell : ∀ d ∈ definitions, d.WellFormed)
  (actionsWell : ∀ a ∈ actions, a.WellFormed)
  (quiet : ∀ site ∈ sites definitions actions, ∀ n, ¬ site.Dangles definitions n)

include quiet in
/-- Where no place dangles, everything that a place names is defined. -/
theorem Site.defined {site : Site} (h : site ∈ sites definitions actions) {n : String}
    (names : site.Names n) : n ∈ definitions.map (·.name) := by
  by_contra unknown
  exact quiet site h n ⟨names, unknown⟩

include quiet in
theorem resolves_property {d : Definition} (hd : d ∈ definitions) {p : Property}
    (hp : p ∈ d.properties) : Resolves definitions p.reference := by
  intro n names
  refine Site.defined quiet (?_ : Site.property d p ∈ _) (.property names)
  exact List.mem_append_left _ (List.mem_flatMap.mpr ⟨d, hd, by simp [Site.ofDefinition, hp]⟩)

include quiet in
theorem resolves_item {d : Definition} (hd : d ∈ definitions) {r : Reference}
    (hr : d.itemType = some r) : Resolves definitions r := by
  intro n names
  refine Site.defined quiet (?_ : Site.item d ∈ _) (.item hr names)
  exact List.mem_append_left _ (List.mem_flatMap.mpr ⟨d, hd, by simp [Site.ofDefinition]⟩)

include quiet in
theorem resolves_request {a : Action} (ha : a ∈ actions) {r : Reference}
    (hr : a.requestType = some r) : Resolves definitions r := by
  intro n names
  refine Site.defined quiet (?_ : Site.request a ∈ _) (.request hr names)
  exact List.mem_append_right _ (List.mem_flatMap.mpr ⟨a, ha, by simp [Site.ofAction]⟩)

include quiet in
theorem resolves_response {a : Action} (ha : a ∈ actions) {r : Reference}
    (hr : a.responseType = some r) : Resolves definitions r := by
  intro n names
  refine Site.defined quiet (?_ : Site.response a ∈ _) (.response hr names)
  exact List.mem_append_right _ (List.mem_flatMap.mpr ⟨a, ha, by simp [Site.ofAction]⟩)

include definitionsWell actionsWell quiet in
/-- Where no place dangles, rendering misses nothing. -/
theorem missesNothing_render : MissesNothing (render e definitions actions) := by
  have keys : ∀ d ∈ definitions, d.kind = .result → d.itemsKey.isSome :=
    fun d hd => (definitionsWell d hd).itemsKey
  have passes := (dangling?_eq_none_iff definitionsWell actionsWell).mpr quiet
  have entities : ∀ d ∈ definitions, MissesNothing (entitySource e definitions d) := by
    intro d hd
    exact missesNothing_entitySource (exists_entityView (definitionsWell d hd)
      (fun p hp => resolves_property quiet hd hp) fun r hr => resolves_item quiet hd hr)
  have clients : ∀ g ∈ groupByClient actions,
      MissesNothing (clientSource e definitions g.1 g.2) := by
    intro g hg
    apply missesNothing_clientSource
    intro a ha
    have member := (mem_groupByClient hg ha).1
    exact missesNothing_actionView (actionsWell a member) keys
      (fun r hr => resolves_request quiet member hr) fun r hr => resolves_response quiet member hr
  exact avoids_render (fun _ => Failure.not_misses_emission _) passes entities
    (.inr (.inr (by simp))) clients fun _ => missesNothing_supportFiles _ _ _

include definitionsWell actionsWell in
/-- Rendering reports an unresolved reference if the check finds one. -/
theorem render_eq_unresolved_iff :
    render e definitions actions = .error (.unresolved missing referrer l) ↔
      l = e.language ∧ dangling? definitions actions = some (missing, referrer) := by
  cases found : dangling? definitions actions with
  | none =>
      have quiet := (dangling?_eq_none_iff definitionsWell actionsWell).mp found
      constructor
      · intro h
        exact absurd (.reference _ _ _) (missesNothing_render definitionsWell actionsWell quiet _ h)
      · rintro ⟨-, ⟨⟩⟩
  | some r =>
      have refused : render e definitions actions = .error (.unresolved r.1 r.2 e.language) := by
        rw [render, checkReferences, found]
        rfl
      rw [refused]
      constructor
      · rintro ⟨⟩
        exact ⟨rfl, rfl⟩
      · rintro ⟨rfl, ⟨⟩⟩
        rfl

end Document

/-- References in a document. Rendering its definitions and actions reports an
unresolved reference if and only if some place, through any number of arrays, names a
type that is not defined, and it reports the first such place in the order of emission.
Otherwise every look-up finds what it looks for: all definitions have their views, all
requests and responses theirs, a result is constructed with the key of its items, and
rendering does not fail for want of a name. -/
theorem render_of_document {document : Value} {client source : Option String}
    {specification : Specification} {policy : Policy} (e : Emitter)
    (parsed : Specification.ofDocument document client source = .ok specification)
    (built : Catalog.definitions .standard policy specification.types specification.traits =
      .ok definitions) :
    ((∃ missing referrer l, render e definitions specification.actions =
          .error (.unresolved missing referrer l)) ↔
        ∃ site ∈ sites definitions specification.actions, ∃ n, site.Dangles definitions n) ∧
    (∀ missing referrer l, render e definitions specification.actions =
          .error (.unresolved missing referrer l) ↔
        l = e.language ∧ ∃ before site after,
          sites definitions specification.actions = before ++ site :: after ∧
            site.Dangles definitions missing ∧ site.referrer = referrer ∧
            ∀ earlier ∈ before, ∀ n, ¬ earlier.Dangles definitions n) ∧
    ((∀ site ∈ sites definitions specification.actions, ∀ n, ¬ site.Dangles definitions n) →
      render e definitions specification.actions ≠ .error (.misuse .unknownName) ∧
      (∀ d ∈ definitions, ∃ v, entityView e.language definitions d = .ok v) ∧
      ∀ a ∈ specification.actions,
        (∀ r, a.requestType = some r → ∀ parameters, ∃ v,
          bodyView e.language definitions parameters r = .ok v) ∧
        ∀ r, a.responseType = some r → ∃ reply doc,
          replyOf definitions r = .ok reply ∧ reply.lacksKey = false ∧
            docType e.language definitions true r = .ok doc) := by
  have definitionsWell := Catalog.wellFormed_of_definitions built
  have actionsWell := Specification.wellFormed_of_document parsed
  have keys : ∀ d ∈ definitions, d.kind = .result → d.itemsKey.isSome :=
    fun d hd => (definitionsWell d hd).itemsKey
  have passes := dangling?_eq_none_iff definitionsWell actionsWell
  refine ⟨?_, fun missing referrer l => ?_, fun quiet => ⟨?_, ?_, ?_⟩⟩
  · simp only [render_eq_unresolved_iff definitionsWell actionsWell]
    constructor
    · rintro ⟨missing, referrer, l, -, found⟩
      by_contra none
      rw [passes.mpr fun site h n dangling => none ⟨site, h, n, dangling⟩] at found
      cases found
    · rintro ⟨site, h, n, dangling⟩
      cases found : dangling? definitions specification.actions with
      | none => exact absurd dangling (passes.mp found site h n)
      | some r => exact ⟨r.1, r.2, e.language, rfl, rfl⟩
  · rw [render_eq_unresolved_iff definitionsWell actionsWell,
      dangling?_eq_some_iff definitionsWell actionsWell]
  · intro h
    exact missesNothing_render definitionsWell actionsWell quiet _ h .lookup
  · intro d hd
    exact exists_entityView (definitionsWell d hd)
      (fun p hp => resolves_property quiet hd hp) fun r hr => resolves_item quiet hd hr
  · intro a ha
    refine ⟨fun r hr parameters => ?_, fun r hr => ?_⟩
    · exact exists_bodyView ((actionsWell a ha).request r hr) (resolves_request quiet ha hr) _
    · have resolves := resolves_response quiet ha hr
      obtain ⟨reply, replied, keyed⟩ :=
        exists_replyOf keys ((actionsWell a ha).response r hr) resolves
      obtain ⟨doc, documented⟩ := exists_docType ((actionsWell a ha).response r hr) resolves true
      exact ⟨reply, doc, replied, keyed, documented⟩

/-- A property two arrays deep dangles before the response of an action does. -/
theorem render_undefined_element :
    Specification.ofDocument
      (.map [(.str "title", .str "Bank"),
        (.str "types", .map [(.str "Transfer", .map [(.str "properties",
          .map [(.str "id", .str "string"), (.str "amounts?", .str "Money[][]")])])]),
        (.str "/transfers", .map [(.str "get", .map [(.str "responses",
          .map [(.str "200", .map [(.str "body", .str "Receipt[]")])])])])])
      none none =
    .ok ⟨"Bank", [("Transfer", .map [(.str "properties",
        .map [(.str "id", .str "string"), (.str "amounts?", .str "Money[][]")])])], [],
      [{ path := "/transfers", client := "Bank",
         responseType := some (.array (.named "Receipt")) }],
      .null, none⟩ ∧
    Catalog.definitions .standard .warn
      [("Transfer", .map [(.str "properties",
        .map [(.str "id", .str "string"), (.str "amounts?", .str "Money[][]")])])] [] =
    .ok [⟨"Transfer", .object, [⟨"id", "string", .scalar .string, false, none⟩,
      ⟨"amounts", "Money[][]", .array (.array (.named "Money")), true, none⟩], none, none, [],
      none, none, false, false⟩] ∧
    render ⟨⟨.php, .str "acme", .str "bank", .null⟩, .str "common", .str "", .str "1.0.0", true⟩
      [⟨"Transfer", .object, [⟨"id", "string", .scalar .string, false, none⟩,
        ⟨"amounts", "Money[][]", .array (.array (.named "Money")), true, none⟩], none, none, [],
        none, none, false, false⟩]
      [{ path := "/transfers", client := "Bank",
         responseType := some (.array (.named "Receipt")) }] =
    .error (.unresolved "Money" "type Transfer" .php) := by
  refine ⟨?parsed, ?built,
    ((render_of_document _ ?parsed ?built).2.1 _ _ _).mpr ⟨rfl, ?site⟩⟩
  case parsed => with_unfolding_all rfl
  case built => with_unfolding_all rfl
  case site =>
    let amounts : Property :=
      ⟨"amounts", "Money[][]", .array (.array (.named "Money")), true, none⟩
    let d : Definition :=
      { name := "Transfer",
        properties := [⟨"id", "string", .scalar .string, false, none⟩, amounts] }
    refine ⟨[.parent d, .property d ⟨"id", "string", .scalar .string, false, none⟩],
      .property d amounts, [.item d, .request _, .response _], rfl,
      ⟨.property (.array (.array (.named "Money"))), by simp⟩, rfl, ?_⟩
    intro earlier h n dangling
    rcases List.mem_pair.mp h with rfl | rfl
    · obtain ⟨⟨⟨⟩⟩, -⟩ := dangling
    · cases dangling.1 with
      | property names =>
          change (Reference.scalar .string).Names n at names
          cases names

end ClientForge.Emission
