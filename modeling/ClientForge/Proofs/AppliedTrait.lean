import ClientForge.Proofs.Resolution

/-!
# Requests taken from traits

An action without a body takes its request from the first applied trait that is declared
and named like a filter, its own traits before those of its resource. Whether such a
trait becomes a type is another matter, which the builders decide by the shape of its
declaration. Where the two agree the request is defined. A trait that is named like a
filter but has the shape of no type is asked for and never made.
-/

namespace ClientForge

open ClientForge.Outcome ClientForge.Declaration

namespace Builder

/-- Whether a trait that is named like a filter becomes a type: it lists members, or
extends the base filter, or has the shape of another type and not that of a trait. -/
def makesFilterTrait (name : String) (declaration : Value) : Bool :=
  declaredType? declaration == some baseFilterName || hasKey "properties" declaration ||
    hasKey "queryParameters" declaration ||
    (!result.supports name declaration &&
      (enumeration.supports name declaration ||
        (!trait.supports name declaration && object.supports name declaration)))

theorem endsWith_of_isFilterTrait {name : String} (h : Specification.isFilterTrait name = true) :
    Text.endsWith name baseFilterName = true ∧ (name == baseFilterName) = false := by
  rw [Specification.isFilterTrait, Bool.and_eq_true, bne_iff_ne] at h
  exact ⟨h.1, beq_eq_false_iff_ne.mpr h.2⟩

/-- A result without properties has no list of items. -/
theorem result_build_eq_none {declaration : Value} (name : String)
    (h : hasKey "properties" declaration = false) : result.build name declaration = none := by
  have bare : declaration.field "properties" = .null := by
    cases declaration with
    | map es =>
        have : Value.Entries.text? "properties" es = none := by
          simpa [hasKey, entries?, Value.Entries.hasText] using h
        simp [Value.field, Value.field?, this]
    | _ => rfl
  simp [result, bare, properties]

/-- Dispatch among the standard builders makes a type of a trait named like a filter in
these cases and no others. -/
theorem isSome_built?_iff {name : String} {declaration : Value}
    (named : Specification.isFilterTrait name = true) :
    (Catalog.built? .standard (name, declaration)).isSome = makesFilterTrait name declaration := by
  obtain ⟨ending, other⟩ := endsWith_of_isFilterTrait named
  have asFilter : filter.supports name declaration =
      (declaredType? declaration == some baseFilterName || hasKey "properties" declaration ||
        hasKey "queryParameters" declaration) := by
    simp [filter, ending, other, Bool.or_assoc]
  rw [makesFilterTrait, ← asFilter, Catalog.built?, Registry.firstMatch, Registry.standard]
  simp only [List.find?_cons, List.find?_nil]
  cases first : filter.supports name declaration with
  | true => rfl
  | false =>
      have bare : hasKey "properties" declaration = false := by
        rw [asFilter] at first
        simp only [Bool.or_eq_false_iff] at first
        exact first.1.2
      cases second : result.supports name declaration with
      | true => simp [result_build_eq_none name bare]
      | false =>
          cases third : enumeration.supports name declaration with
          | true => rfl
          | false =>
              cases fourth : trait.supports name declaration with
              | true => rfl
              | false => cases fifth : object.supports name declaration <;> rfl

end Builder

/-- Only the declaration of that name builds the base filter. -/
theorem Registry.isBaseFilter_of_standard {p : Placed} {name : String} {declaration : Value}
    {d : Definition} (hp : p ∈ Registry.standard.entries)
    (h : p.builder.build name declaration = some d) (base : d.isBaseFilter = true) :
    name = Builder.baseFilterName := by
  rcases Registry.mem_standard.mp hp with rfl | rfl | rfl | rfl | rfl
  · obtain rfl := Option.some.inj h
    simpa using base
  · obtain ⟨items, -, made⟩ := Option.bind_eq_some_iff.mp h
    obtain rfl := Option.some.inj made
    cases base
  · obtain rfl := Option.some.inj h
    cases base
  · cases h
  · obtain rfl := Option.some.inj h
    cases base

namespace Catalog

variable {policy : Policy} {types traits : Table Value} {definitions : List Definition}
  {name : String} {declaration : Value}

/-- What the standard builders make of a declaration is named after it, and it is the base
filter only under that name. -/
theorem standard_of_built? {e : String × Value} {d : Definition}
    (made : built? .standard e = some d) :
    d.name = e.1 ∧ (IsBaseFilter d → e.1 = Builder.baseFilterName) := by
  obtain ⟨b, found, made⟩ := Option.bind_eq_some_iff.mp made
  obtain ⟨p, hp, rfl, -⟩ := Registry.firstMatch_eq_some found
  exact ⟨Registry.name_of_standard hp made,
    fun base => Registry.isBaseFilter_of_standard hp made base.2⟩

/-- A trait that is named like a filter comes out of the catalog if it becomes a type. -/
theorem exists_definition_iff (typesOnce : (Table.names types).Nodup)
    (traitsOnce : (Table.names traits).Nodup) (declares : traits.get? name = some declaration)
    (named : Specification.isFilterTrait name = true)
    (built : Catalog.definitions .standard policy types traits = .ok definitions) :
    (∃ d ∈ definitions, d.name = name) ↔ Builder.makesFilterTrait name declaration = true := by
  have merged : (merge types traits).get? name = some declaration :=
    Table.get?_update_of_some traitsOnce declares types
  have once : (Table.names (merge types traits)).Nodup := Table.nodup_names_update typesOnce traits
  rw [eq_emitted_of_definitions built, ← Builder.isSome_built?_iff named, Option.isSome_iff_exists]
  constructor
  · rintro ⟨_, hd, rfl⟩
    obtain ⟨c, hc, rfl⟩ := List.mem_map.mp hd
    obtain ⟨e, he, kept⟩ := List.mem_filterMap.mp hc
    have made : built? .standard e = some c := (Option.filter_eq_some_iff.mp kept).1
    have value := Table.get?_eq_some_of_mem once he
    rw [← (standard_of_built? made).1, ← marked_name, merged] at value
    obtain rfl : declaration = e.2 := Option.some.inj value
    exact ⟨c, by rw [marked_name, (standard_of_built? made).1]; exact made⟩
  · rintro ⟨d, made⟩
    obtain ⟨same, base⟩ := standard_of_built? made
    have ordinary : ¬ IsBaseFilter d := by
      intro h
      have other := (Builder.endsWith_of_isFilterTrait named).2
      exact beq_eq_false_iff_ne.mp other (base h)
    have kept : emitted? .standard (name, declaration) = some d :=
      Option.filter_eq_some_iff.mpr ⟨made, decide_eq_true ordinary⟩
    exact ⟨_, List.mem_map_of_mem (List.mem_filterMap.mpr
      ⟨(name, declaration), Table.mem_of_get?_eq_some merged, kept⟩), same⟩

end Catalog

namespace Specification

/-- A method node that a resource offers: where it is found, the method, the node, and the
traits that the resource around it applies. -/
inductive Offers : String → Value → String → Method → Value → List String → Prop
  | method {path key : String} {es : Value.Entries} {method : Method} {node : Value}
      {inherited : List String} (entry : (.str key, node) ∈ es)
      (plain : isResourceKey key = false) (named : methodOfKey? key = some method)
      (applied : traitNames ((Value.map es).field "is") = .ok inherited) :
      Offers path (.map es) path method node inherited
  | resource {path key place : String} {es : Value.Entries} {method : Method} {inner node : Value}
      {inherited : List String} (entry : (.str key, inner) ∈ es)
      (isResource : isResourceKey key = true)
      (below : Offers (path ++ key) inner place method node inherited) :
      Offers path (.map es) place method node inherited

/-- A method node of a document: one that a resource among its entries offers. -/
def Holds (document : Value) (place : String) (method : Method) (node : Value)
    (inherited : List String) : Prop :=
  ∃ es key inner, document = .map es ∧ (.str key, inner) ∈ es ∧ isResourceKey key = true ∧
    Offers key inner place method node inherited

variable {s : Setting} {path place : String} {method : Method} {node : Value}
  {inherited : List String} {actions : List Action}

/-- The walk over a resource comes to every method node that the resource offers. -/
theorem exists_stop_of_offers {v : Value} (h : Offers path v place method node inherited)
    (keys : List String) (above : List Nat) (same : String.join keys = path) :
    ∃ q m, (q, Stop.method m) ∈ stops keys above v ∧ m.path = place ∧ m.method = method ∧
      m.node = node ∧ inheritedNames m.resource = inherited := by
  induction h generalizing keys above with
  | @method path key es method node inherited entry plain named applied =>
      obtain ⟨i, entry⟩ := List.mem_iff_getElem?.mp entry
      have names : inheritedNames es = inherited := by
        rw [inheritedNames, applications, applied]
        rfl
      have here : (above ++ [i], Stop.method ⟨keys, es, key, method, node⟩) ∈
          oneStop keys above es i (.str key, node) :=
        mem_oneStop.mpr ⟨key, rfl, .inr ⟨method, methodOfKey?_eq_some.mp named, rfl⟩⟩
      exact ⟨_, _, mem_stops_map.mpr (.inr ⟨i, _, entry, here⟩), same, rfl, rfl, names⟩
  | @resource path key place es method inner node inherited entry isResource below ih =>
      obtain ⟨i, entry⟩ := List.mem_iff_getElem?.mp entry
      obtain ⟨q, m, hm, found⟩ := ih (keys ++ [key]) (above ++ [i]) (by rw [join_concat, same])
      have here : (q, Stop.method m) ∈ oneStop keys above es i (.str key, inner) :=
        mem_oneStop.mpr ⟨key, rfl, .inl ⟨isResource, hm⟩⟩
      exact ⟨q, m, mem_stops_map.mpr (.inr ⟨i, _, entry, here⟩), found⟩

/-- Every method node that a document holds gives one of its actions. -/
theorem exists_action_of_entry {es : Value.Entries} {key : String} {inner : Value}
    (walked : documentActions s es = .ok actions) (entry : (.str key, inner) ∈ es)
    (isResource : isResourceKey key = true)
    (offered : Offers key inner place method node inherited) :
    ∃ a ∈ actions, action s place method node inherited = .ok a := by
  obtain ⟨i, entry⟩ := List.mem_iff_getElem?.mp entry
  have single : String.join [key] = key := join_concat [] key
  obtain ⟨q, m, hm, rfl, rfl, rfl, rfl⟩ := exists_stop_of_offers offered [key] [i] single
  have listed : (q, Stop.method m) ∈ documentStops 0 es :=
    mem_documentStops.mpr ⟨i, _, entry, mem_topStops.mpr ⟨key, rfl, isResource, hm⟩⟩
  rw [documentActions_eq_visitAll 0] at walked
  obtain ⟨a, pair, gives⟩ :=
    exists_zip_left (gives_of_visitAll walked) (mem_methodNodes_iff.mpr listed)
  exact ⟨a, (List.of_mem_zip pair).2, gives.made⟩

/-- The request of a method node without a body is the first applied trait that is declared
and named like a filter. -/
theorem requestType_of_action {own : List String} {a : Action}
    (bare : bodyType (node.field "body") = none)
    (applies : traitNames (node.field "is") = .ok own)
    (made : action s place method node inherited = .ok a) :
    a.path = place ∧ a.method = method ∧ a.requestType = traitRequest s (own ++ inherited) := by
  simp only [action_eq, requestOf, bare, applies, ok_bind, pure_eq] at made
  obtain ⟨-, -, made⟩ := bind_eq_ok.mp made
  obtain rfl := Except.ok.inj made
  exact ⟨rfl, rfl, rfl⟩

open ClientForge.Emission in
/-- A method node without a body takes its request from the first applied trait that is
declared and named like a filter, its own before those of its resource. That name is
defined, and is never reported missing, if the declaration of the trait makes a type;
otherwise it is not defined and rendering is refused over it or an earlier reference. -/
theorem trait_request_defined_iff {document : Value} {client source : Option String}
    {specification : Specification} {own : List String} {name : String}
    (read : ofDocument document client source = .ok specification)
    (held : Holds document place method node inherited)
    (bare : bodyType (node.field "body") = none)
    (applies : traitNames (node.field "is") = .ok own)
    (taken : (own ++ inherited).find?
      (fun n => specification.traits.has n && isFilterTrait n) = some name) :
    (∃ a ∈ specification.actions, a.path = place ∧ a.method = method ∧
      a.requestType = some (.named name)) ∧
    ∃ declaration, specification.traits.get? name = some declaration ∧
      ∀ policy definitions, Catalog.definitions .standard policy specification.types
          specification.traits = .ok definitions →
        ((∃ d ∈ definitions, d.name = name) ↔
          Builder.makesFilterTrait name declaration = true) ∧
        ∀ e : Emitter,
          (Builder.makesFilterTrait name declaration = true → ∀ referrer l,
            render e definitions specification.actions ≠ .error (.unresolved name referrer l)) ∧
          (Builder.makesFilterTrait name declaration = false → ∃ missing referrer,
            render e definitions specification.actions =
              .error (.unresolved missing referrer e.language)) := by
  obtain ⟨typesOnce, traitsOnce, es, grouping, rfl, walked⟩ := ofDocument_eq_ok read
  obtain ⟨es', key, inner, same, entry, isResource, offered⟩ := held
  obtain rfl := Value.map.inj same
  obtain ⟨a, member, made⟩ := exists_action_of_entry walked entry isResource offered
  obtain ⟨path, method, request⟩ := requestType_of_action bare applies made
  have named : a.requestType = some (.named name) := by rw [request, traitRequest, taken]; rfl
  have chosen : specification.traits.has name = true ∧ isFilterTrait name = true := by
    simpa using List.find?_some taken
  obtain ⟨known, filter⟩ := chosen
  obtain ⟨declaration, declares⟩ := Option.isSome_iff_exists.mp known
  refine ⟨⟨a, member, path, method, named⟩, declaration, declares, ?_⟩
  intro policy definitions built
  have defined := Catalog.exists_definition_iff typesOnce traitsOnce declares filter built
  have definitionsWell := Catalog.wellFormed_of_definitions built
  have actionsWell := wellFormed_of_document read
  refine ⟨defined, fun e => ⟨?_, ?_⟩⟩
  · intro makes referrer l refused
    obtain ⟨-, found⟩ := (render_eq_unresolved_iff definitionsWell actionsWell).mp refused
    obtain ⟨-, site, -, -, ⟨-, unknown⟩, -⟩ :=
      (dangling?_eq_some_iff definitionsWell actionsWell).mp found
    obtain ⟨d, hd, rfl⟩ := defined.mpr makes
    exact unknown (List.mem_map_of_mem hd)
  · intro none
    have unknown : name ∉ definitions.map (·.name) := by
      intro h
      have makes := defined.mp (List.mem_map.mp h)
      rw [none] at makes
      cases makes
    have site : Site.request a ∈ sites definitions specification.actions :=
      List.mem_append_right _ (List.mem_flatMap.mpr ⟨a, member, List.mem_cons_self⟩)
    cases found : dangling? definitions specification.actions with
    | none =>
        exact absurd ⟨.request named (.named name), unknown⟩
          ((dangling?_eq_none_iff definitionsWell actionsWell).mp found _ site name)
    | some r =>
        exact ⟨r.1, r.2, (render_eq_unresolved_iff definitionsWell actionsWell).mpr ⟨rfl, found⟩⟩

/-- A filter that a resource applies stands for the request of a method that applies
another trait, and is defined. -/
theorem inherited_filter_defined : ∃ document s node own definitions,
    ofDocument document none none = .ok s ∧
    Holds document "/items" .get node ["StatusFilter"] ∧
    bodyType (node.field "body") = none ∧ traitNames (node.field "is") = .ok own ∧
    (own ++ ["StatusFilter"]).find? (fun n => s.traits.has n && isFilterTrait n) =
      some "StatusFilter" ∧
    Catalog.definitions .standard .warn s.types s.traits = .ok definitions ∧
    ∃ d ∈ definitions, d.name = "StatusFilter" := by
  have read : ofDocument (.map [
      (.str "traits", .map [(.str "StatusFilter", .map [(.str "queryParameters", .map [])])]),
      (.str "/items", .map [(.str "is", .str "StatusFilter"),
        (.str "get", .map [(.str "is", .str "paged")])])]) none none =
      .ok ⟨"Api", [], [("StatusFilter", .map [(.str "queryParameters", .map [])])],
        [{ client := "Api", path := "/items", requestType := some (.named "StatusFilter") }],
        .null, none⟩ := by with_unfolding_all rfl
  have held : Holds (.map [
      (.str "traits", .map [(.str "StatusFilter", .map [(.str "queryParameters", .map [])])]),
      (.str "/items", .map [(.str "is", .str "StatusFilter"),
        (.str "get", .map [(.str "is", .str "paged")])])]) "/items" .get
      (.map [(.str "is", .str "paged")]) ["StatusFilter"] := by
    refine ⟨_, "/items", _, rfl, List.mem_cons_of_mem _ List.mem_cons_self, by decide, ?_⟩
    exact .method (List.mem_cons_of_mem _ List.mem_cons_self) (by decide) (by decide) rfl
  have bare : bodyType ((Value.map [(.str "is", .str "paged")]).field "body") = none := by
    with_unfolding_all rfl
  have applies : traitNames ((Value.map [(.str "is", .str "paged")]).field "is") =
      .ok ["paged"] := by with_unfolding_all rfl
  have taken : (["paged"] ++ ["StatusFilter"]).find?
      (fun n => Table.has n [("StatusFilter", Value.map [(.str "queryParameters", .map [])])] &&
        isFilterTrait n) = some "StatusFilter" := by decide +kernel
  have built : Catalog.definitions .standard .warn []
      [("StatusFilter", .map [(.str "queryParameters", .map [])])] =
      .ok [{ name := "StatusFilter", kind := .filter }] := by with_unfolding_all rfl
  obtain ⟨-, declaration, declares, defined⟩ :=
    trait_request_defined_iff read held bare applies taken
  obtain rfl := Option.some.inj declares
  exact ⟨_, _, _, ["paged"], _, read, held, bare, applies, taken, built,
    (defined .warn _ built).1.mpr (by decide)⟩

open ClientForge.Emission in
/-- A trait that only describes headers stands for a request and makes no type. -/
theorem header_filter_dangles : ∃ s definitions,
    ofDocument (.map [(.str "traits", .map [(.str "PagedFilter",
        .map [(.str "headers", .map [(.str "X-Page", .str "integer")])])]),
      (.str "/items", .map [(.str "get", .map [(.str "is", .list [.str "PagedFilter"])])])])
      none none = .ok s ∧
    (∃ a ∈ s.actions, a.requestType = some (.named "PagedFilter")) ∧
    Catalog.definitions .standard .warn s.types s.traits = .ok definitions ∧
    (∀ d ∈ definitions, d.name ≠ "PagedFilter") ∧
    ∀ e : Emitter, render e definitions s.actions =
      .error (.unresolved "PagedFilter" "action GET /items" e.language) := by
  refine ⟨⟨"Api", [], [("PagedFilter",
      .map [(.str "headers", .map [(.str "X-Page", .str "integer")])])],
    [{ client := "Api", path := "/items", requestType := some (.named "PagedFilter") }],
    .null, none⟩, [], ?_, ?_, ?_, by simp, fun e => rfl⟩
  · with_unfolding_all rfl
  · exact ⟨_, List.mem_cons_self, rfl⟩
  · with_unfolding_all rfl

end Specification

end ClientForge
