import ClientForge.Emission.Tree
import ClientForge.Proofs.Outcome
import ClientForge.Proofs.Table
import Mathlib.Data.List.Induction

/-!
# The files of a tree

Rendering adds one file after another and refuses a path that is taken. A tree that is
rendered therefore is the list of its files: one for each definition in order, one for
each client in order, then those that every package has, no path twice. Conversely that
is all that rendering asks for, besides that no reference dangles.
-/

namespace ClientForge.Emission

open ClientForge.Outcome

variable {e : Emitter} {index : Index} {definitions : List Definition} {actions : List Action}

theorem Tree.add_eq_ok {path : String} {file : SourceFile} {tree result : Tree} :
    tree.add path file = .ok result ↔
      path ∉ Table.names tree ∧ result = tree ++ [(path, file)] := by
  by_cases taken : path ∈ Table.names tree
  · rw [Tree.add, if_pos (Table.has_iff.mpr taken)]
    simp [taken]
  · rw [Tree.add, if_neg (mt Table.has_iff.mp taken)]
    simp [taken, eq_comm]

/-- An entry of a tree that holds the file of a definition. -/
def IsEntity (e : Emitter) (index : Index) (d : Definition) (entry : String × SourceFile) : Prop :=
  entry.1 = Naming.entityFile e.language d.name ∧ entitySource e index d = .ok entry.2

/-- An entry of a tree that holds the file of a client. -/
def IsClient (e : Emitter) (index : Index) (group : String × List Action)
    (entry : String × SourceFile) : Prop :=
  e.namesClients = true ∧ entry.1 = Naming.clientFile e.language group.1 ∧
    clientSource e index group.1 group.2 = .ok entry.2

theorem names_of_isEntity {entities : Tree}
    (h : List.Forall₂ (IsEntity e index) definitions entities) :
    Table.names entities = definitions.map fun d => Naming.entityFile e.language d.name := by
  induction h with
  | nil => rfl
  | cons head _ ih => rw [Table.names_cons, head.1, ih, List.map_cons]

theorem names_of_isClient {groups : Table (List Action)} {clients : Tree}
    (h : List.Forall₂ (IsClient e index) groups clients) :
    Table.names clients = groups.names.map (Naming.clientFile e.language) := by
  induction h with
  | nil => rfl
  | cons head _ ih => rw [Table.names_cons, head.2.1, ih, Table.names_cons, List.map_cons]

/-- The paths of the files that every package has. -/
def supportPaths : Language → List String
  | .javascript => ["src/service/DateFactory.js", "src/index.js", "package.json"]
  | .php => ["src/Service/DateFactory.php", "src/Service/ClientFactory.php", "composer.json"]

theorem names_supportFiles {clients : List String} {support : Tree}
    (h : supportFiles e index clients = .ok support) :
    Table.names support = supportPaths e.language := by
  unfold supportFiles at h
  cases l : e.language with
  | javascript =>
      rw [l] at h
      obtain ⟨name, -, h⟩ := bind_eq_ok.mp h
      obtain ⟨-, -, h⟩ := bind_eq_ok.mp h
      obtain rfl := Except.ok.inj h
      rfl
  | php =>
      rw [l] at h
      obtain ⟨space, -, h⟩ := bind_eq_ok.mp h
      obtain ⟨name, -, h⟩ := bind_eq_ok.mp h
      obtain ⟨vendor, -, h⟩ := bind_eq_ok.mp h
      obtain ⟨common, -, h⟩ := bind_eq_ok.mp h
      obtain ⟨baseUrl, -, h⟩ := bind_eq_ok.mp h
      obtain ⟨version, -, h⟩ := bind_eq_ok.mp h
      obtain rfl := Except.ok.inj h
      rfl

/-- Adding files succeeds if no path comes twice, and sets them behind one another. -/
theorem addFiles_eq_ok {files : List (String × SourceFile)} {tree result : Tree}
    (once : (Table.names tree).Nodup) :
    addFiles files tree = .ok result ↔
      result = tree ++ files ∧ (Table.names (tree ++ files)).Nodup := by
  induction files generalizing tree with
  | nil => simp [addFiles, once, eq_comm]
  | cons entry files ih =>
      have shift : tree ++ entry :: files = tree ++ [entry] ++ files := by simp
      rw [addFiles, bind_eq_ok, shift]
      constructor
      · rintro ⟨next, added, rest⟩
        obtain ⟨fresh, rfl⟩ := Tree.add_eq_ok.mp added
        refine (ih ?_).mp rest
        rw [Table.names_append]
        exact once.append (List.nodup_singleton _) (by simpa using fresh)
      · rintro ⟨rfl, all⟩
        have first : (Table.names (tree ++ [entry])).Nodup := by
          rw [Table.names_append] at all
          exact all.of_append_left
        refine ⟨tree ++ [entry], Tree.add_eq_ok.mpr ⟨?_, rfl⟩, (ih first).mpr ⟨rfl, all⟩⟩
        rw [Table.names_append] at first
        exact fun taken => List.disjoint_of_nodup_append first taken (by simp)

/-- The files of two groups can be added group by group. -/
theorem addFiles_append (files more : List (String × SourceFile)) (tree : Tree) :
    addFiles (files ++ more) tree = addFiles files tree >>= addFiles more := by
  induction files generalizing tree with
  | nil => rfl
  | cons entry files ih =>
      rw [List.cons_append, addFiles, addFiles]
      cases tree.add entry.1 entry.2 with
      | error f => rfl
      | ok next => exact ih next

/-- Adding the files of definitions is rendering each, and adding what came out. -/
theorem addEntities_eq_ok {tree result : Tree} :
    addEntities e index definitions tree = .ok result ↔
      ∃ entries, List.Forall₂ (IsEntity e index) definitions entries ∧
        addFiles entries tree = .ok result := by
  induction definitions generalizing tree with
  | nil => simp [addEntities, addFiles]
  | cons d definitions ih =>
      rw [addEntities, bind_eq_ok]
      constructor
      · rintro ⟨file, rendered, rest⟩
        obtain ⟨next, added, rest⟩ := bind_eq_ok.mp rest
        obtain ⟨entries, each, all⟩ := ih.mp rest
        exact ⟨(_, file) :: entries, .cons ⟨rfl, rendered⟩ each,
          bind_eq_ok.mpr ⟨next, added, all⟩⟩
      · rintro ⟨_, each, all⟩
        cases each with
        | @cons _ entry _ entries head each =>
            obtain ⟨path, rendered⟩ := head
            obtain ⟨next, added, rest⟩ := bind_eq_ok.mp all
            exact ⟨entry.2, rendered, bind_eq_ok.mpr
              ⟨next, path ▸ added, ih.mpr ⟨entries, each, rest⟩⟩⟩

/-- Adding the files of clients is rendering each, and adding what came out. -/
theorem addClients_eq_ok {groups : Table (List Action)} {tree result : Tree} :
    addClients e index groups tree = .ok result ↔
      ∃ entries, List.Forall₂ (IsClient e index) groups entries ∧
        addFiles entries tree = .ok result := by
  induction groups generalizing tree with
  | nil => simp [addClients, addFiles]
  | cons group groups ih =>
      cases named : e.namesClients with
      | false =>
          have refused : addClients e index (group :: groups) tree = misused .wrongType := by
            simp [addClients, named, misused]
          constructor
          · intro h
            rw [refused] at h
            cases h
          · rintro ⟨_, each, -⟩
            cases each with
            | cons head _ => simp [IsClient, named] at head
      | true =>
          have goesOn : addClients e index (group :: groups) tree =
              clientSource e index group.1 group.2 >>= fun file =>
                tree.add (Naming.clientFile e.language group.1) file >>=
                  addClients e index groups := by
            simp [addClients, named]
          rw [goesOn, bind_eq_ok]
          constructor
          · rintro ⟨file, rendered, rest⟩
            obtain ⟨next, added, rest⟩ := bind_eq_ok.mp rest
            obtain ⟨entries, each, all⟩ := ih.mp rest
            exact ⟨(_, file) :: entries, .cons ⟨named, rfl, rendered⟩ each,
              bind_eq_ok.mpr ⟨next, added, all⟩⟩
          · rintro ⟨_, each, all⟩
            cases each with
            | @cons _ entry _ entries head each =>
                obtain ⟨-, path, rendered⟩ := head
                obtain ⟨next, added, rest⟩ := bind_eq_ok.mp all
                exact ⟨entry.2, rendered, bind_eq_ok.mpr
                  ⟨next, path ▸ added, ih.mpr ⟨entries, each, rest⟩⟩⟩

/-- The three groups of files that make up a tree. -/
structure Consists (e : Emitter) (definitions : List Definition) (actions : List Action)
    (entities clients support : Tree) : Prop where
  entity : List.Forall₂ (IsEntity e definitions) definitions entities
  client : List.Forall₂ (IsClient e definitions) (groupByClient actions) clients
  others : supportFiles e definitions (groupByClient actions).names = .ok support
  once : (Table.names (entities ++ clients ++ support)).Nodup

namespace Consists

variable {entities clients support : Tree}
  (parts : Consists e definitions actions entities clients support)
include parts

/-- Every definition has its file. -/
theorem exists_entity {d : Definition} (hd : d ∈ definitions) :
    ∃ file, entitySource e definitions d = .ok file ∧
      (Naming.entityFile e.language d.name, file) ∈ entities ++ clients ++ support := by
  obtain ⟨entry, pair, path, source⟩ := exists_zip_left parts.entity hd
  refine ⟨entry.2, source, ?_⟩
  rw [← path]
  exact List.mem_append_left _ (List.mem_append_left _ (List.of_mem_zip pair).2)

/-- Every client has its file. -/
theorem exists_client {client : String} {group : List Action}
    (hg : (client, group) ∈ groupByClient actions) :
    ∃ file, clientSource e definitions client group = .ok file ∧
      (Naming.clientFile e.language client, file) ∈ entities ++ clients ++ support := by
  obtain ⟨entry, pair, -, path, source⟩ := exists_zip_left parts.client hg
  refine ⟨entry.2, source, ?_⟩
  rw [← path]
  exact List.mem_append_left _ (List.mem_append_right _ (List.of_mem_zip pair).2)

theorem entityFile_mem {d : Definition} (hd : d ∈ definitions) :
    Naming.entityFile e.language d.name ∈ Table.names (entities ++ clients ++ support) := by
  obtain ⟨file, -, there⟩ := parts.exists_entity hd
  exact Table.mem_names_of_mem there

theorem clientFile_mem {client : String} (hc : client ∈ (groupByClient actions).names) :
    Naming.clientFile e.language client ∈ Table.names (entities ++ clients ++ support) := by
  obtain ⟨group, hg, rfl⟩ := List.mem_map.mp hc
  obtain ⟨file, -, there⟩ := parts.exists_client hg
  exact Table.mem_names_of_mem there

/-- No class is defined twice. -/
theorem nodup_classNames : (definitions.map fun d => Naming.className d.name).Nodup := by
  have paths := parts.once
  rw [List.append_assoc, Table.names_append] at paths
  have entities := paths.of_append_left
  rw [names_of_isEntity parts.entity] at entities
  apply List.Nodup.of_map (Naming.sourcePath e.language (Naming.entityFolder e.language))
  rwa [List.map_map]

/-- No class of a client is made twice. -/
theorem nodup_clientClasses : ((groupByClient actions).names.map Naming.clientClass).Nodup := by
  have paths := parts.once
  rw [Table.names_append, Table.names_append] at paths
  have clients := paths.of_append_left.of_append_right
  rw [names_of_isClient parts.client] at clients
  apply List.Nodup.of_map (Naming.sourcePath e.language (Naming.serviceFolder e.language))
  rwa [List.map_map]

/-- Every file of a tree belongs to one of the three groups. -/
theorem cases_of_mem {entry : String × SourceFile} (h : entry ∈ entities ++ clients ++ support) :
    (∃ d ∈ definitions, IsEntity e definitions d entry) ∨
      (∃ group ∈ groupByClient actions, IsClient e definitions group entry) ∨ entry ∈ support := by
  rcases List.mem_append.mp h with h | h
  · rcases List.mem_append.mp h with h | h
    · obtain ⟨d, pair, entity⟩ := exists_zip_right parts.entity h
      exact .inl ⟨d, (List.of_mem_zip pair).1, entity⟩
    · obtain ⟨group, pair, client⟩ := exists_zip_right parts.client h
      exact .inr (.inl ⟨group, (List.of_mem_zip pair).1, client⟩)
  · exact .inr (.inr h)

end Consists

/-- Rendering gives a tree if no reference dangles, each file can be rendered and no
path comes twice; the tree is the files in their order. -/
theorem render_eq_ok {tree : Tree} :
    render e definitions actions = .ok tree ↔
      dangling? definitions actions = none ∧ ∃ entities clients support,
        tree = entities ++ clients ++ support ∧
          Consists e definitions actions entities clients support := by
  rw [render, checkReferences]
  cases dangling? definitions actions with
  | some r => simp
  | none =>
      simp only [ok_bind, true_and]
      constructor
      · intro h
        obtain ⟨first, h₁, h⟩ := bind_eq_ok.mp h
        obtain ⟨second, h₂, h⟩ := bind_eq_ok.mp h
        obtain ⟨support, others, h⟩ := bind_eq_ok.mp h
        obtain ⟨entities, entity, h₁⟩ := addEntities_eq_ok.mp h₁
        obtain ⟨clients, client, h₂⟩ := addClients_eq_ok.mp h₂
        have all : addFiles (entities ++ clients ++ support) [] = .ok tree := by
          rw [addFiles_append, addFiles_append, h₁, ok_bind, h₂, ok_bind, h]
        obtain ⟨same, once⟩ := (addFiles_eq_ok (by simp)).mp all
        exact ⟨entities, clients, support, same, entity, client, others, once⟩
      · rintro ⟨entities, clients, support, rfl, parts⟩
        have all : addFiles (entities ++ clients ++ support) [] =
            .ok (entities ++ clients ++ support) :=
          (addFiles_eq_ok (by simp)).mpr ⟨rfl, parts.once⟩
        rw [addFiles_append, addFiles_append] at all
        obtain ⟨second, h, h₃⟩ := bind_eq_ok.mp all
        obtain ⟨first, h₁, h₂⟩ := bind_eq_ok.mp h
        refine bind_eq_ok.mpr ⟨first, addEntities_eq_ok.mpr ⟨_, parts.entity, h₁⟩, ?_⟩
        refine bind_eq_ok.mpr ⟨second, addClients_eq_ok.mpr ⟨_, parts.client, h₂⟩, ?_⟩
        exact bind_eq_ok.mpr ⟨support, parts.others, h₃⟩

/-- The clients of actions, in the order in which they first come up. -/
def clientsOf (actions : List Action) : List String := (actions.map (·.client)).eraseDups

@[simp] theorem mem_clientsOf {client : String} :
    client ∈ clientsOf actions ↔ ∃ a ∈ actions, a.client = client := by
  rw [clientsOf, List.mem_eraseDups, List.mem_map]

theorem clientsOf_concat_of_mem {a : Action} (known : a.client ∈ clientsOf actions) :
    clientsOf (actions ++ [a]) = clientsOf actions := by
  have met : a.client ∈ actions.map (·.client) := List.mem_eraseDups.mp known
  have nothing : [a.client].removeAll (actions.map (·.client)) = [] := by
    simp only [List.removeAll, List.filter_cons, List.elem_eq_mem, met, decide_true,
      Bool.not_true, Bool.false_eq_true, if_false, List.filter_nil]
  rw [clientsOf, List.map_append, List.eraseDups_append, List.map_singleton, nothing,
    List.eraseDups_nil, List.append_nil, clientsOf]

theorem clientsOf_concat_of_not_mem {a : Action} (fresh : a.client ∉ clientsOf actions) :
    clientsOf (actions ++ [a]) = clientsOf actions ++ [a.client] := by
  have unmet : a.client ∉ actions.map (·.client) := mt List.mem_eraseDups.mpr fresh
  have itself : [a.client].removeAll (actions.map (·.client)) = [a.client] := by
    simp only [List.removeAll, List.filter_cons, List.elem_eq_mem, unmet, decide_false,
      Bool.not_false, if_true, List.filter_nil]
  rw [clientsOf, List.map_append, List.eraseDups_append, List.map_singleton, itself, clientsOf]
  rfl

theorem nodup_clientsOf (actions : List Action) : (clientsOf actions).Nodup := by
  induction actions using List.reverseRecOn with
  | nil => exact List.nodup_nil
  | append_singleton actions a ih =>
      by_cases known : a.client ∈ clientsOf actions
      · rw [clientsOf_concat_of_mem known]
        exact ih
      · rw [clientsOf_concat_of_not_mem known]
        exact ih.append (List.nodup_singleton _) (by simpa using known)

/-- Grouping gives each client its actions in their order. -/
theorem groupByClient_eq (actions : List Action) :
    groupByClient actions =
      (clientsOf actions).map fun client => (client, actions.filter (·.client == client)) := by
  induction actions using List.reverseRecOn with
  | nil => rfl
  | append_singleton actions a ih =>
      have names : (groupByClient actions).names = clientsOf actions := by
        rw [ih, Table.names, List.map_map]
        exact List.map_id _
      have step : groupByClient (actions ++ [a]) = (groupByClient actions).put a.client
          (((groupByClient actions).get? a.client).getD [] ++ [a]) := by
        rw [groupByClient, List.foldl_append, List.foldl_cons, List.foldl_nil, groupByClient]
      have once : (groupByClient actions).names.Nodup := names ▸ nodup_clientsOf actions
      by_cases known : a.client ∈ clientsOf actions
      · have entry : (a.client, actions.filter (·.client == a.client)) ∈ groupByClient actions :=
          ih ▸ List.mem_map_of_mem known
        rw [step, Table.get?_eq_some_of_mem once entry, Option.getD_some,
          Table.put_of_mem once (names ▸ known), clientsOf_concat_of_mem known, ih, List.map_map]
        apply List.map_congr_left
        intro client _
        by_cases same : a.client = client
        · simp [same]
        · simp [same, Ne.symm same]
      · have others : actions.filter (·.client == a.client) = [] := by
          rw [List.filter_eq_nil_iff]
          intro b hb same
          exact known (mem_clientsOf.mpr ⟨b, hb, eq_of_beq same⟩)
        rw [step, Table.get?_eq_none_iff.mpr (names ▸ known), Option.getD_none,
          Table.put_of_not_mem (names ▸ known), clientsOf_concat_of_not_mem known, ih,
          List.map_append, List.map_singleton, List.filter_append, others]
        congr 1
        · apply List.map_congr_left
          intro client hc
          have different : a.client ≠ client := fun same => known (same ▸ hc)
          simp [different]
        · simp

/-- A client's group holds actions of that client only. -/
theorem mem_groupByClient {client : String} {group : List Action} {a : Action}
    (hg : (client, group) ∈ groupByClient actions) (ha : a ∈ group) :
    a ∈ actions ∧ a.client = client := by
  rw [groupByClient_eq] at hg
  obtain ⟨_, -, same⟩ := List.mem_map.mp hg
  obtain ⟨rfl, rfl⟩ := Prod.mk.inj same
  simpa using ha

theorem names_groupByClient (actions : List Action) :
    (groupByClient actions).names = clientsOf actions := by
  rw [groupByClient_eq, Table.names, List.map_map]
  exact List.map_id _

/-- The groups are named after the clients of the actions. -/
theorem mem_names_groupByClient {client : String} :
    client ∈ (groupByClient actions).names ↔ ∃ a ∈ actions, a.client = client := by
  rw [names_groupByClient, mem_clientsOf]

/-- Every action is in the group of its client. -/
theorem exists_group {a : Action} (ha : a ∈ actions) :
    ∃ group, (a.client, group) ∈ groupByClient actions ∧ a ∈ group := by
  refine ⟨actions.filter (·.client == a.client), ?_, by simp [ha]⟩
  rw [groupByClient_eq]
  exact List.mem_map_of_mem (mem_clientsOf.mpr ⟨a, ha, rfl⟩)

end ClientForge.Emission
