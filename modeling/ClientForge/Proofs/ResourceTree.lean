import ClientForge.Proofs.Outcome
import ClientForge.Specification
import Mathlib.Data.List.Basic

/-!
# The order of the resource tree

Where a value of a document stands is told by the positions of the entries that lead to
it. Ordered as words are, these places are the document in pre-order: a mapping comes
before what it holds, and one entry with all it holds before the next. The walk that
collects the actions stops at each mapping that keys of resources lead to, where it
reads the applied traits, and at each method key of such a mapping, where it makes an
action. These stops are listed here once, in the order of their places, and reading the
resources of a document is reading at each stop in turn.
-/

namespace ClientForge

/-- Induction over the mappings that a value is made of, entry by entry. -/
@[elab_as_elim]
theorem Value.induction_on_maps {motive : Value → Prop}
    (other : ∀ v : Value, v.isMap = false → motive v)
    (map : ∀ es : Value.Entries, (∀ e ∈ es, motive e.2) → motive (.map es)) (v : Value) :
    motive v := by
  cases v with
  | map es =>
      refine map es fun e he => ?_
      have smaller : sizeOf e.2 < 1 + sizeOf es := by
        have entry := List.sizeOf_lt_of_mem he
        have inner : sizeOf e = 1 + sizeOf e.1 + sizeOf e.2 := rfl
        omega
      exact induction_on_maps other map e.2
  | _ => exact other _ rfl
termination_by sizeOf v

namespace Specification

open ClientForge.Outcome ClientForge.Value

/-- A key in capitals. -/
def capitals (key : String) : String := String.ofList (key.toList.map Naming.capital)

theorem methodOfKey?_eq_some {key : String} {method : Method} :
    methodOfKey? key = some method ↔ method.name = capitals key := by
  constructor
  · intro named
    simpa [capitals] using List.find?_some named
  · intro same
    rw [methodOfKey?, ← capitals, ← same, Method.ofName?_name]

/-- No key of a resource names a method. -/
theorem isResourceKey_eq_false {key : String} {method : Method}
    (named : method.name = capitals key) : isResourceKey key = false := by
  rw [Bool.eq_false_iff]
  intro isResource
  obtain ⟨rest, slash⟩ := List.isPrefixOf_iff_prefix.mp isResource
  have first : (capitals key).toList.head? = some '/' := by
    rw [capitals, String.toList_ofList, ← slash]
    rfl
  rw [← named] at first
  cases method <;> exact absurd first (by decide)

/-- A value to which keys of resources lead in a document: the positions of the entries on
the way, and their keys. -/
inductive Leads (document : Value) : List Nat → List String → Value → Prop
  | root : Leads document [] [] document
  | step {place : List Nat} {keys : List String} {es : Entries} {i : Nat} {key : String}
      {inner : Value} (above : Leads document place keys (.map es))
      (entry : es[i]? = some (.str key, inner)) (isResource : isResourceKey key = true) :
      Leads document (place ++ [i]) (keys ++ [key]) inner

/-- No keys lead to the document itself only. -/
theorem Leads.eq_root {document v : Value} {place : List Nat} (leads : Leads document place [] v) :
    place = [] ∧ v = document := by
  generalize none : ([] : List String) = keys at leads
  cases leads with
  | root => exact ⟨rfl, rfl⟩
  | step => simp at none

/-- The traits that the entries of a resource apply. -/
def applications (es : Entries) : Value := (Value.map es).field "is"

/-- A method key with its node, in the entries of a resource that some keys lead to. -/
structure MethodNode where
  keys : List String
  resource : Entries
  key : String
  method : Method
  node : Value

namespace MethodNode

def path (m : MethodNode) : String := String.join m.keys

/-- Whether a document has a method node at a place: some keys lead to its resource, and its
own key, in capitals, is the method. -/
def IsAt (document : Value) (place : List Nat) (m : MethodNode) : Prop :=
  ∃ above i, place = above ++ [i] ∧ m.keys ≠ [] ∧ Leads document above m.keys (.map m.resource) ∧
    m.resource[i]? = some (.str m.key, m.node) ∧ m.method.name = capitals m.key

end MethodNode

/-- What the walk over the resources comes to: the entries of a resource, or a method. -/
inductive Stop
  | resource (es : Entries)
  | method (m : MethodNode)

namespace Stop

/-- Whether a document has at a place what the walk comes to there. -/
def IsAt (document : Value) (place : List Nat) : Stop → Prop
  | resource es => ∃ keys, keys ≠ [] ∧ Leads document place keys (.map es)
  | method m => m.IsAt document place

/-- The method node that the walk comes to, if it is one. -/
def methodNode? : Stop → Option MethodNode
  | resource _ => none
  | method m => some m

end Stop

mutual

/-- The stops at a resource and below it. -/
def stops (keys : List String) (place : List Nat) : Value → List (List Nat × Stop)
  | .map es => (place, .resource es) :: entryStops keys place es 0 es
  | _ => []
termination_by structural v => v

/-- The stops at the entries of a resource from a position on. -/
def entryStops (keys : List String) (place : List Nat) (all : Entries) (i : Nat) :
    List (Value × Value) → List (List Nat × Stop)
  | [] => []
  | e :: rest => oneStop keys place all i e ++ entryStops keys place all (i + 1) rest
termination_by structural es => es

/-- The stops at one entry. -/
def oneStop (keys : List String) (place : List Nat) (all : Entries) (i : Nat) :
    Value × Value → List (List Nat × Stop)
  | (.str key, node) =>
    if isResourceKey key then stops (keys ++ [key]) (place ++ [i]) node
    else
      match methodOfKey? key with
      | some method => [(place ++ [i], .method ⟨keys, all, key, method, node⟩)]
      | none => []
  | _ => []
termination_by structural e => e

end

/-- The stops at one entry of a document, if its key is that of a resource. -/
def topStops (i : Nat) : Value × Value → List (List Nat × Stop)
  | (.str key, node) => if isResourceKey key then stops [key] [i] node else []
  | _ => []

/-- The stops at the entries of a document from a position on. -/
def documentStops (i : Nat) : Entries → List (List Nat × Stop)
  | [] => []
  | e :: rest => topStops i e ++ documentStops (i + 1) rest

section Walk

variable {s : Setting}

/-- The traits that a resource hands down to its methods. -/
def inheritedNames (es : Entries) : List String :=
  (traitNames (applications es)).toOption.getD []

/-- The actions of one stop. -/
def visit (s : Setting) : Stop → Outcome (List Action)
  | .resource es => traitNames (applications es) >>= fun _ => pure []
  | .method m => methodAction s m.path m.key m.method m.node (inheritedNames m.resource)

/-- The actions of some stops, one stop after another. -/
def visitAll (s : Setting) : List (List Nat × Stop) → Outcome (List Action)
  | [] => .ok []
  | x :: rest => visit s x.2 >>= fun here => visitAll s rest >>= fun more => pure (here ++ more)

theorem visitAll_append (xs ys : List (List Nat × Stop)) :
    visitAll s (xs ++ ys) =
      visitAll s xs >>= fun here => visitAll s ys >>= fun more => pure (here ++ more) := by
  induction xs with
  | nil =>
      cases later : visitAll s ys with
      | error f => simp [visitAll, later]
      | ok more => simp [visitAll, later]
  | cons x xs ih =>
      rw [List.cons_append, visitAll, visitAll, ih]
      simp only [bind_assoc, pure_bind, List.append_assoc]

theorem join_concat (keys : List String) (key : String) :
    String.join (keys ++ [key]) = String.join keys ++ key := by
  rw [String.join, List.foldl_append]
  rfl

mutual

/-- The walk over a resource reads at its stops. -/
theorem resourceActions_eq_visitAll (keys : List String) (place : List Nat) (v : Value) :
    resourceActions s (String.join keys) v = visitAll s (stops keys place v) := by
  cases v with
  | map es =>
      rw [stops, visitAll, visit]
      change traitNames (applications es) >>= _ = _
      cases given : traitNames (applications es) with
      | error f => rfl
      | ok inherited =>
          have names : inheritedNames es = inherited := by rw [inheritedNames, given]; rfl
          have rest := entryActions_eq_visitAll keys place es 0 es
          rw [names] at rest
          simp only [ok_bind, pure_eq, List.nil_append, rest]
          cases visitAll s (entryStops keys place es 0 es) <;> rfl
  | _ => rfl
termination_by structural v

theorem entryActions_eq_visitAll (keys : List String) (place : List Nat) (all : Entries) (i : Nat)
    (es : List (Value × Value)) :
    entryActions s (String.join keys) (inheritedNames all) es =
      visitAll s (entryStops keys place all i es) := by
  cases es with
  | nil => rfl
  | cons e rest =>
      rw [entryActions, entryStops, visitAll_append,
        oneEntry_eq_visitAll keys place all i e,
        entryActions_eq_visitAll keys place all (i + 1) rest]
termination_by structural es

theorem oneEntry_eq_visitAll (keys : List String) (place : List Nat) (all : Entries) (i : Nat)
    (e : Value × Value) :
    oneEntry s (String.join keys) (inheritedNames all) e =
      visitAll s (oneStop keys place all i e) := by
  cases e with
  | mk key node =>
      cases key with
      | str key =>
          rw [oneEntry, oneStop]
          split
          · rw [← join_concat]
            exact resourceActions_eq_visitAll (keys ++ [key]) (place ++ [i]) node
          · cases methodOfKey? key with
            | none => rfl
            | some method =>
                change methodAction s (String.join keys) key method node (inheritedNames all) =
                  methodAction s (String.join keys) key method node (inheritedNames all) >>= _
                cases methodAction s (String.join keys) key method node (inheritedNames all) with
                | error f => rfl
                | ok here => simp [visitAll]
      | _ => rfl
termination_by structural e

end

/-- The walk over a document reads at its stops. -/
theorem documentActions_eq_visitAll (i : Nat) (es : Entries) :
    documentActions s es = visitAll s (documentStops i es) := by
  induction es generalizing i with
  | nil => rfl
  | cons e rest ih =>
      rw [documentStops, visitAll_append, ← ih]
      obtain ⟨key, node⟩ := e
      cases key with
      | str key =>
          cases isResource : isResourceKey key with
          | true =>
              have top := resourceActions_eq_visitAll (s := s) [key] [i] node
              rw [String.join, List.foldl_cons, List.foldl_nil, String.empty_append] at top
              simp only [documentActions, topStops, isResource, if_true, top]
          | false => simp [documentActions, topStops, isResource, visitAll]
      | _ =>
          rw [documentActions]
          · cases documentActions s rest <;> rfl
          · exact nofun

/-- The action that a method node gives. -/
structure MethodNode.Gives (s : Setting) (m : MethodNode) (a : Action) : Prop where
  path : a.path = m.path
  method : a.method = m.method
  made : action s m.path m.method m.node (inheritedNames m.resource) = .ok a

/-- The request of a method node: its body, or a filter among the applied traits. -/
def requestOf (s : Setting) (node : Value) (inherited : List String) :
    Outcome (Option Reference) :=
  match bodyType (node.field "body") with
  | some r => .ok (some r)
  | none => do
    let own ← traitNames (node.field "is")
    pure (traitRequest s (own ++ inherited))

theorem action_eq (s : Setting) (path : String) (method : Method) (node : Value)
    (inherited : List String) :
    action s path method node inherited = requestOf s node inherited >>= fun request =>
      needWritable (node.field "description" :: responseCodes (node.field "responses")) >>=
        fun _ => pure {
          client := s.client
          method
          path
          description := actionDescription (node.field "description")
          displayName := node.field "displayName"
          requestType := request
          responseType := responseType (node.field "responses") } := by
  unfold action requestOf
  cases bodyType (node.field "body") with
  | some r => rfl
  | none => simp only [bind_assoc, pure_bind]

theorem gives_of_action {m : MethodNode} {a : Action}
    (made : action s m.path m.method m.node (inheritedNames m.resource) = .ok a) :
    m.Gives s a := by
  have steps := made
  rw [action_eq] at steps
  obtain ⟨request, -, steps⟩ := bind_eq_ok.mp steps
  obtain ⟨-, -, steps⟩ := bind_eq_ok.mp steps
  obtain rfl := Except.ok.inj steps
  exact ⟨rfl, rfl, made⟩

/-- The method nodes among some stops, with their places. -/
def methodNodes (xs : List (List Nat × Stop)) : List (List Nat × MethodNode) :=
  xs.filterMap fun x => x.2.methodNode?.map (x.1, ·)

/-- Reading at some stops gives one action for each method node among them, in order. -/
theorem gives_of_visitAll {xs : List (List Nat × Stop)} {actions : List Action}
    (visited : visitAll s xs = .ok actions) :
    List.Forall₂ (fun n a => n.2.Gives s a) (methodNodes xs) actions := by
  induction xs generalizing actions with
  | nil =>
      obtain rfl := Except.ok.inj visited
      exact .nil
  | cons x xs ih =>
      obtain ⟨place, stop⟩ := x
      obtain ⟨here, first, visited⟩ := bind_eq_ok.mp visited
      obtain ⟨more, later, visited⟩ := bind_eq_ok.mp visited
      obtain rfl := Except.ok.inj visited
      cases stop with
      | resource es =>
          obtain ⟨names, -, first⟩ := bind_eq_ok.mp first
          obtain rfl := Except.ok.inj first
          exact ih later
      | method m =>
          rw [visit, methodAction] at first
          split at first
          · obtain ⟨a, made, first⟩ := bind_eq_ok.mp first
            obtain rfl := Except.ok.inj first
            exact .cons (gives_of_action made) (ih later)
          · cases first

end Walk

section Members

variable {v : Value} {keys : List String} {place : List Nat} {all es : Entries} {i : Nat}
  {e : Value × Value} {x : List Nat × Stop}

/-- Only a mapping is walked. -/
theorem stops_eq_nil (plain : v.isMap = false) : stops keys place v = [] := by
  cases v with
  | map es => cases plain
  | _ => rfl

theorem entryStops_eq_flatMap (keys : List String) (place : List Nat) (all : Entries) (i : Nat)
    (es : Entries) :
    entryStops keys place all i es =
      (es.zipIdx i).flatMap fun p => oneStop keys place all p.2 p.1 := by
  induction es generalizing i with
  | nil => rfl
  | cons e es ih => rw [entryStops, ih, List.zipIdx_cons, List.flatMap_cons]

theorem documentStops_eq_flatMap (i : Nat) (es : Entries) :
    documentStops i es = (es.zipIdx i).flatMap fun p => topStops p.2 p.1 := by
  induction es generalizing i with
  | nil => rfl
  | cons e es ih => rw [documentStops, ih, List.zipIdx_cons, List.flatMap_cons]

theorem mem_flatMap_zipIdx {f : Nat → Value × Value → List (List Nat × Stop)} :
    x ∈ (es.zipIdx.flatMap fun p => f p.2 p.1) ↔ ∃ i e, es[i]? = some e ∧ x ∈ f i e := by
  rw [List.mem_flatMap]
  constructor
  · rintro ⟨⟨e, i⟩, entry, hx⟩
    exact ⟨i, e, List.mk_mem_zipIdx_iff_getElem?.mp entry, hx⟩
  · rintro ⟨i, e, entry, hx⟩
    exact ⟨(e, i), List.mk_mem_zipIdx_iff_getElem?.mpr entry, hx⟩

/-- The stops at a mapping are itself and those at its entries. -/
theorem mem_stops_map : x ∈ stops keys place (.map es) ↔
    x = (place, .resource es) ∨ ∃ i e, es[i]? = some e ∧ x ∈ oneStop keys place es i e := by
  rw [stops, List.mem_cons, entryStops_eq_flatMap, mem_flatMap_zipIdx]

theorem mem_documentStops :
    x ∈ documentStops 0 es ↔ ∃ i e, es[i]? = some e ∧ x ∈ topStops i e := by
  rw [documentStops_eq_flatMap, mem_flatMap_zipIdx]

theorem mem_topStops : x ∈ topStops i e ↔
    ∃ key, e.1 = .str key ∧ isResourceKey key = true ∧ x ∈ stops [key] [i] e.2 := by
  obtain ⟨key, node⟩ := e
  cases key with
  | str key => cases isResource : isResourceKey key <;> simp [topStops, isResource]
  | _ => simp [topStops]

theorem mem_oneStop : x ∈ oneStop keys place all i e ↔
    ∃ key, e.1 = .str key ∧
      (isResourceKey key = true ∧ x ∈ stops (keys ++ [key]) (place ++ [i]) e.2 ∨
        ∃ method : Method, method.name = capitals key ∧
          x = (place ++ [i], .method ⟨keys, all, key, method, e.2⟩)) := by
  obtain ⟨key, node⟩ := e
  cases key with
  | str key =>
      simp only [← methodOfKey?_eq_some, oneStop]
      cases isResource : isResourceKey key with
      | true =>
          have none : methodOfKey? key = none := by
            rw [Option.eq_none_iff_forall_ne_some]
            intro method named
            rw [isResourceKey_eq_false (methodOfKey?_eq_some.mp named)] at isResource
            cases isResource
          simp [isResource, none]
      | false => cases named : methodOfKey? key <;> simp [isResource, named]
  | _ => simp [oneStop]

end Members

section Places

variable {document v : Value} {keys : List String} {place : List Nat} {all es : Entries}
  {i : Nat} {e : Value × Value} {x : List Nat × Stop}

/-- Whatever the walk comes to below a value stands below its place. -/
theorem prefix_of_mem_stops (hx : x ∈ stops keys place v) : place <+: x.1 := by
  induction v using Value.induction_on_maps generalizing keys place with
  | other v plain =>
      rw [stops_eq_nil plain] at hx
      cases hx
  | map es ih =>
      rcases mem_stops_map.mp hx with rfl | ⟨i, e, entry, hx⟩
      · exact List.prefix_refl place
      · have below : place <+: place ++ [i] := List.prefix_append place [i]
        obtain ⟨key, -, ⟨-, hx⟩ | ⟨method, -, rfl⟩⟩ := mem_oneStop.mp hx
        · exact below.trans (ih e (List.mem_of_getElem? entry) hx)
        · exact below

theorem place_of_mem_oneStop (hx : x ∈ oneStop keys place all i e) :
    ∃ rest, x.1 = place ++ i :: rest := by
  obtain ⟨key, -, ⟨-, hx⟩ | ⟨method, -, rfl⟩⟩ := mem_oneStop.mp hx
  · obtain ⟨rest, same⟩ := prefix_of_mem_stops hx
    exact ⟨rest, by rw [← same, List.append_assoc, List.singleton_append]⟩
  · exact ⟨[], rfl⟩

theorem place_of_mem_topStops (hx : x ∈ topStops i e) : ∃ rest, x.1 = [] ++ i :: rest := by
  obtain ⟨key, -, -, hx⟩ := mem_topStops.mp hx
  obtain ⟨rest, same⟩ := prefix_of_mem_stops hx
  exact ⟨rest, same.symm⟩

/-- One place comes before another in the document. -/
def Before (x y : List Nat × Stop) : Prop := x.1 < y.1

/-- One entry after another, each with all it holds, is the order of their places. -/
theorem pairwise_flatMap_zipIdx {f : Nat → Value × Value → List (List Nat × Stop)}
    (each : ∀ i e, es[i]? = some e → (f i e).Pairwise Before)
    (below : ∀ i e, ∀ x ∈ f i e, ∃ rest, x.1 = place ++ i :: rest) :
    (es.zipIdx.flatMap fun p => f p.2 p.1).Pairwise Before := by
  refine List.pairwise_flatMap.mpr ⟨?_, ?_⟩
  · rintro ⟨e, i⟩ entry
    exact each i e (List.mk_mem_zipIdx_iff_getElem?.mp entry)
  · have positions : es.zipIdx.Pairwise fun p q => p.2 < q.2 := by
      rw [← List.pairwise_map, List.zipIdx_map_snd]
      exact List.pairwise_lt_range' 1
    refine positions.imp ?_
    rintro ⟨e, i⟩ ⟨e', j⟩ earlier x hx y hy
    obtain ⟨rest, here⟩ := below i e x hx
    obtain ⟨rest', there⟩ := below j e' y hy
    rw [Before, here, there]
    exact List.append_left_lt (List.cons_lt_cons_iff.mpr (.inl earlier))

/-- The walk goes through the places of a value in their order. -/
theorem pairwise_stops (keys : List String) (place : List Nat) (v : Value) :
    (stops keys place v).Pairwise Before := by
  induction v using Value.induction_on_maps generalizing keys place with
  | other v plain =>
      rw [stops_eq_nil plain]
      exact .nil
  | map es ih =>
      rw [stops, entryStops_eq_flatMap]
      refine List.pairwise_cons.mpr ⟨?_, pairwise_flatMap_zipIdx ?_ fun i e x =>
        place_of_mem_oneStop⟩
      · intro x hx
        obtain ⟨i, e, -, hx⟩ := mem_flatMap_zipIdx.mp hx
        obtain ⟨rest, same⟩ := place_of_mem_oneStop hx
        have below : place ++ [] < place ++ i :: rest := List.append_left_lt (List.nil_lt_cons _ _)
        rw [Before, same]
        rwa [List.append_nil] at below
      · rintro i ⟨key, node⟩ entry
        cases key with
        | str key =>
            rw [oneStop]
            split
            · exact ih (.str key, node) (List.mem_of_getElem? entry) (keys ++ [key]) (place ++ [i])
            · split
              · exact List.pairwise_singleton _ _
              · exact .nil
        | _ => exact .nil

/-- The walk goes through the places of a document in their order. -/
theorem pairwise_documentStops (es : Entries) : (documentStops 0 es).Pairwise Before := by
  rw [documentStops_eq_flatMap]
  refine pairwise_flatMap_zipIdx ?_ fun i e x => place_of_mem_topStops
  intro i e _
  unfold topStops
  split
  · split
    · exact pairwise_stops _ _ _
    · exact .nil
  · exact .nil

/-- The walk comes only to what the document has. -/
theorem isAt_of_mem_stops (nonempty : keys ≠ []) (leads : Leads document place keys v)
    (hx : x ∈ stops keys place v) : x.2.IsAt document x.1 := by
  induction v using Value.induction_on_maps generalizing keys place with
  | other v plain =>
      rw [stops_eq_nil plain] at hx
      cases hx
  | map es ih =>
      rcases mem_stops_map.mp hx with rfl | ⟨i, ⟨_, node⟩, entry, hx⟩
      · exact ⟨keys, nonempty, leads⟩
      · obtain ⟨key, rfl, ⟨isResource, hx⟩ | ⟨method, named, rfl⟩⟩ := mem_oneStop.mp hx
        · exact ih _ (List.mem_of_getElem? entry) (by simp) (leads.step entry isResource) hx
        · exact ⟨place, i, rfl, nonempty, leads, entry, named⟩

theorem isAt_of_mem_documentStops (hx : x ∈ documentStops 0 es) : x.2.IsAt (.map es) x.1 := by
  obtain ⟨i, ⟨_, node⟩, entry, hx⟩ := mem_documentStops.mp hx
  obtain ⟨key, rfl, isResource, hx⟩ := mem_topStops.mp hx
  exact isAt_of_mem_stops (by simp) (.step .root entry isResource) hx

/-- The walk comes to everything below what keys of resources lead to. -/
theorem stops_subset_documentStops (leads : Leads (.map all) place keys v) (nonempty : keys ≠ []) :
    stops keys place v ⊆ documentStops 0 all := by
  induction leads with
  | root => exact absurd rfl nonempty
  | @step place keys es i key inner above entry isResource ih =>
      intro x hx
      by_cases top : keys = []
      · obtain rfl := top
        obtain ⟨rfl, same⟩ := above.eq_root
        obtain rfl := Value.map.inj same
        exact mem_documentStops.mpr ⟨i, _, entry, mem_topStops.mpr ⟨key, rfl, isResource, hx⟩⟩
      · have here : x ∈ oneStop keys place es i (.str key, inner) :=
          mem_oneStop.mpr ⟨key, rfl, .inl ⟨isResource, hx⟩⟩
        exact ih top (mem_stops_map.mpr (.inr ⟨i, _, entry, here⟩))

/-- The walk comes to the method nodes of the document, and to no others. -/
theorem mem_documentStops_iff {m : MethodNode} :
    (place, .method m) ∈ documentStops 0 all ↔ m.IsAt (.map all) place := by
  constructor
  · exact isAt_of_mem_documentStops
  · rintro ⟨above, i, rfl, nonempty, leads, entry, named⟩
    have here : (above ++ [i], .method m) ∈
        oneStop m.keys above m.resource i (.str m.key, m.node) :=
      mem_oneStop.mpr ⟨m.key, rfl, .inr ⟨m.method, named, rfl⟩⟩
    exact stops_subset_documentStops leads nonempty
      (mem_stops_map.mpr (.inr ⟨i, _, entry, here⟩))

/-- What holds at every stop of the walk holds at every resource and every method node. -/
theorem forall_documentStops_iff {P : Stop → Prop} :
    (∀ x ∈ documentStops 0 all, P x.2) ↔
      (∀ place keys es, keys ≠ [] → Leads (.map all) place keys (.map es) → P (.resource es)) ∧
        ∀ place m, MethodNode.IsAt (.map all) place m → P (.method m) := by
  constructor
  · intro every
    refine ⟨fun place keys es nonempty leads => ?_, fun place m there => ?_⟩
    · exact every _ (stops_subset_documentStops leads nonempty (mem_stops_map.mpr (.inl rfl)))
    · exact every _ (mem_documentStops_iff.mpr there)
  · rintro ⟨resource, method⟩ ⟨place, stop⟩ hx
    have there := isAt_of_mem_documentStops hx
    cases stop with
    | resource es =>
        obtain ⟨keys, nonempty, leads⟩ := there
        exact resource place keys es nonempty leads
    | method m => exact method place m there

theorem mem_methodNodes_iff {m : MethodNode} {xs : List (List Nat × Stop)} :
    (place, m) ∈ methodNodes xs ↔ (place, .method m) ∈ xs := by
  rw [methodNodes, List.mem_filterMap]
  constructor
  · rintro ⟨⟨place, stop⟩, hx, same⟩
    cases stop with
    | resource es => cases same
    | method n =>
        obtain ⟨rfl, rfl⟩ := Prod.mk.inj (Option.some.inj same)
        exact hx
  · intro hx
    exact ⟨_, hx, rfl⟩

theorem pairwise_methodNodes (es : Entries) :
    (methodNodes (documentStops 0 es)).Pairwise fun m n => m.1 < n.1 := by
  refine (pairwise_documentStops es).filterMap _ ?_
  intro x y earlier m hm n hn
  obtain ⟨_, -, rfl⟩ := Option.map_eq_some_iff.mp hm
  obtain ⟨_, -, rfl⟩ := Option.map_eq_some_iff.mp hn
  exact earlier

end Places

end Specification

end ClientForge
