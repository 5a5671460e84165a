import ClientForge.Proofs.Requests

/-!
# A tree holds everything once

A tree has one file for each definition and for each client, in the order in which they come
up, and the files that every package has. The file of a definition declares the class of the
type. The file of a client declares one method for each action of the client, in order, next to
its constructor, and each method sends the request of its action; these are all the requests
that the files of the tree send. Two of the paths being the same, nothing is rendered.
-/

namespace ClientForge.Emission

open ClientForge.Naming ClientForge.Outcome

variable {e : Emitter} {l : Language} {index definitions : List Definition}
  {actions : List Action} {file : SourceFile}

/-- A request that carries an action out: it names the verb and the path of the action, and the
method that sends it calls the action. -/
structure CarriesOut (l : Language) (index : Index) (a : Action) (s : Sending) : Prop where
  verb : s.verb = a.method.name
  path : s.path = a.path
  call : ∃ m, Calls l index a m ∧ s = m.sending l

/-- A file that sends one request for each action, in order, and declares the methods that
send them behind a constructor. -/
structure CallsEach (l : Language) (index : Index) (actions : List Action) (file : SourceFile) :
    Prop where
  sends : List.Forall₂ (CarriesOut l index) actions file.sendings
  declares : file.declaredMethods = constructorName l :: file.sendings.map (·.name)

/-- The method that calls an action sends its request. -/
theorem Calls.carriesOut {a : Action} {m : MethodView} (h : Calls l index a m) :
    CarriesOut l index a (m.sending l) := by
  obtain ⟨w, viewed, same⟩ := id h
  have view := isActionView viewed
  refine ⟨?_, ?_, m, h, rfl⟩
  · rw [same]
    exact congrArg Method.name view.method
  · rw [same]
    exact view.path

/-- The file of a client calls its actions. -/
theorem callsEach_of_clientSource {client : String}
    (source : clientSource e index client actions = .ok file) :
    CallsEach e.language index actions file := by
  obtain ⟨sends, declares⟩ := reads_of_clientSource source
  constructor
  · rw [sends, List.forall₂_map_right_iff]
    exact (calls_of_clientSource source).imp fun _ _ => Calls.carriesOut
  · rw [declares, sends, List.map_map]
    rfl

/-- The paths of a tree: entities in the order of the definitions, clients in the order in
which they first come up, then what every package has. -/
def paths (l : Language) (definitions : List Definition) (actions : List Action) : List String :=
  (definitions.map fun d => Naming.entityFile l d.name) ++
    (clientsOf actions).map (Naming.clientFile l) ++ supportPaths l

/-- A tree that holds everything it was made from, once. -/
structure EmitsEach (e : Emitter) (definitions : List Definition) (actions : List Action)
    (tree : Tree) : Prop where
  names : Table.names tree = paths e.language definitions actions
  once : (Table.names tree).Nodup
  definition : ∀ d ∈ definitions, ∃ file,
    Table.get? (Naming.entityFile e.language d.name) tree = some file ∧
      entitySource e definitions d = .ok file ∧ file.classes = [className d.name]
  client : ∀ c ∈ clientsOf actions, ∃ file,
    Table.get? (Naming.clientFile e.language c) tree = some file ∧
      file.classes = [clientClass c] ∧
      CallsEach e.language definitions (actions.filter (·.client == c)) file
  sends : ∃ order, order.Perm actions ∧
    List.Forall₂ (CarriesOut e.language definitions) order (tree.flatMap (·.2.sendings))

namespace Consists

variable {entities clients support : Tree}
  (parts : Consists e definitions actions entities clients support)
include parts

theorem names :
    Table.names (entities ++ clients ++ support) = paths e.language definitions actions := by
  rw [Table.names_append, Table.names_append, names_of_isEntity parts.entity,
    names_of_isClient parts.client, names_groupByClient, names_supportFiles parts.others, paths]

/-- The requests of a tree are those of its clients. -/
theorem sendings_eq :
    (entities ++ clients ++ support).flatMap (·.2.sendings) = clients.flatMap (·.2.sendings) := by
  have none : entities.flatMap (·.2.sendings) = [] := by
    rw [List.flatMap_eq_nil_iff]
    intro entry h
    obtain ⟨d, -, -, source⟩ := exists_zip_right parts.entity h
    exact sendings_of_entitySource source
  rw [List.flatMap_append, List.flatMap_append, none, sendings_of_supportFiles parts.others,
    List.nil_append, List.append_nil]

theorem emitsEach : EmitsEach e definitions actions (entities ++ clients ++ support) := by
  refine ⟨parts.names, parts.once, ?_, ?_, ?_⟩
  · intro d hd
    obtain ⟨file, source, there⟩ := parts.exists_entity hd
    exact ⟨file, Table.get?_eq_some_of_mem parts.once there, source,
      classes_of_entitySource source⟩
  · intro c hc
    have group : (c, actions.filter (·.client == c)) ∈ groupByClient actions := by
      rw [groupByClient_eq]
      exact List.mem_map_of_mem hc
    obtain ⟨file, source, there⟩ := parts.exists_client group
    exact ⟨file, Table.get?_eq_some_of_mem parts.once there, classes_of_clientSource source,
      callsEach_of_clientSource source⟩
  · refine ⟨_, groups_perm, ?_⟩
    rw [parts.sendings_eq]
    exact parts.rel_clients fun source => (callsEach_of_clientSource source).sends

end Consists

end ClientForge.Emission
