import ClientForge.Proofs.ClassFile
import ClientForge.Proofs.ModuleGraph

/-!
# Views behind files

The file of a definition shows the view of the type, and the file of a client shows the view
of the client, which has one method for each action that the client is given, in order. Naming
methods apart changes nothing but their names. No other file of a tree has such methods.
-/

namespace ClientForge.Emission

open ClientForge.Outcome

variable {e : Emitter} {l : Language} {index : List Definition} {actions : List Action}

/-- The actions of all clients are the actions that were given. -/
theorem flatMap_filter_perm {clients : List String} (once : clients.Nodup)
    (all : ∀ a ∈ actions, a.client ∈ clients) :
    (clients.flatMap fun client => actions.filter (·.client == client)).Perm actions := by
  induction clients generalizing actions with
  | nil =>
      obtain rfl : actions = [] :=
        List.eq_nil_iff_forall_not_mem.mpr fun a ha => List.not_mem_nil (all a ha)
      exact .refl _
  | cons client clients ih =>
      obtain ⟨fresh, once⟩ := List.nodup_cons.mp once
      have others : (clients.flatMap fun c => actions.filter (·.client == c)).Perm
          (actions.filter fun a => !(a.client == client)) := by
        have covered : ∀ a ∈ actions.filter fun a => !(a.client == client), a.client ∈ clients := by
          intro a ha
          obtain ⟨ha, other⟩ := List.mem_filter.mp ha
          rcases List.mem_cons.mp (all a ha) with same | later
          · simp [same] at other
          · exact later
        refine .trans (.of_eq ?_) (ih once covered)
        apply List.flatMap_congr
        intro c hc
        rw [List.filter_filter]
        apply List.filter_congr
        intro a _
        by_cases same : a.client = c
        · have different : c ≠ client := fun h => fresh (h ▸ hc)
          simp [same, different]
        · simp [same]
      rw [List.flatMap_cons]
      exact (others.append_left _).trans (List.filter_append_perm _ _)

/-- A method that calls an action: the view of the action under a name of its own. -/
def Calls (l : Language) (index : Index) (a : Action) (m : MethodView) : Prop :=
  ∃ w, actionView l index a = .ok w ∧ m = { w with name := m.name }

/-- A client has one method for each action, in order. -/
theorem calls_of_methodViews {taken : Taken} {methods : List MethodView}
    (h : methodViews l index taken actions = .ok methods) :
    List.Forall₂ (Calls l index) actions methods := by
  induction actions generalizing taken methods with
  | nil =>
      obtain rfl := Except.ok.inj h
      exact .nil
  | cons a rest ih =>
      obtain ⟨w, viewed, h⟩ := bind_eq_ok.mp h
      obtain ⟨more, tail, h⟩ := bind_eq_ok.mp h
      obtain rfl := Except.ok.inj h
      exact .cons ⟨w, viewed, rfl⟩ (ih tail)

namespace SourceFile

/-- The methods of a client. -/
def methods : SourceFile → List MethodView
  | javascript (.client _ v) => v.methods
  | php (.client _ _ v) => v.methods
  | _ => []

def lines : SourceFile → List String
  | javascript f => f.lines
  | php f => f.lines

theorem text_eq (file : SourceFile) : file.text = String.join (file.lines.map (· ++ "\n")) := by
  cases file <;> rfl

end SourceFile

/-- The file of a client shows its view. -/
theorem exists_view_of_clientSource {client : String} {file : SourceFile}
    (source : clientSource e index client actions = .ok file) :
    ∃ v, IsClientView e.language index client actions v ∧
      (e.language = .javascript ∧ file = .javascript (.client e.common.text v) ∨
        e.language = .php ∧ ∃ space, file = .php (.client space e.common.text v)) := by
  cases l : e.language with
  | javascript =>
      obtain ⟨v, view, rfl⟩ := clientSource_javascript l source
      exact ⟨v, view, .inl ⟨rfl, rfl⟩⟩
  | php =>
      have named : ∃ space, e.resolver.namespaceName = .ok space := by
        simp only [clientSource, l] at source
        obtain ⟨v, -, source⟩ := bind_eq_ok.mp source
        obtain ⟨space, named, -⟩ := bind_eq_ok.mp source
        exact ⟨space, named⟩
      obtain ⟨space, named⟩ := named
      obtain ⟨v, view, rfl⟩ := clientSource_php l named source
      exact ⟨v, view, .inr ⟨rfl, space, rfl⟩⟩

/-- The file of a definition shows its view, as a class or as an enumeration. -/
theorem exists_view_of_entitySource {d : Definition} {file : SourceFile}
    (source : entitySource e index d = .ok file) :
    ∃ v, IsEntityView e.language index d v ∧
      (file = .javascript
          (if d.kind = .enum then .enumeration v else .entity e.common.text v) ∨
        ∃ space, file = .php
          (if d.kind = .enum then .enumeration space v else .entity space e.common.text v)) := by
  obtain ⟨v, viewed, source⟩ := bind_eq_ok.mp source
  refine ⟨v, isEntityView viewed, ?_⟩
  cases l : e.language with
  | javascript =>
      rw [l] at source
      obtain ⟨-, -, source⟩ := bind_eq_ok.mp source
      exact .inl (Except.ok.inj source).symm
  | php =>
      rw [l] at source
      obtain ⟨space, -, source⟩ := bind_eq_ok.mp source
      obtain ⟨-, -, source⟩ := bind_eq_ok.mp source
      exact .inr ⟨space, (Except.ok.inj source).symm⟩

/-- The methods of a client call its actions in order. -/
theorem calls_of_clientSource {client : String} {file : SourceFile}
    (source : clientSource e index client actions = .ok file) :
    List.Forall₂ (Calls e.language index) actions file.methods := by
  obtain ⟨v, view, ⟨-, rfl⟩ | ⟨-, space, rfl⟩⟩ := exists_view_of_clientSource source
  · exact calls_of_methodViews view.methods
  · exact calls_of_methodViews view.methods

/-- The file of a definition has no methods that call actions. -/
theorem methods_of_entitySource {d : Definition} {file : SourceFile}
    (source : entitySource e index d = .ok file) : file.methods = [] := by
  obtain ⟨v, -, rfl | ⟨space, rfl⟩⟩ := exists_view_of_entitySource source
  · split <;> rfl
  · split <;> rfl

/-- Neither have the files that every package has. -/
theorem methods_of_supportFiles {clients : List String} {support : Tree}
    (made : supportFiles e index clients = .ok support) :
    support.flatMap (·.2.methods) = [] := by
  cases l : e.language with
  | javascript =>
      obtain ⟨name, version, rfl⟩ := supportFiles_javascript l made
      rfl
  | php =>
      obtain ⟨space, name, version, requirement, baseUrl, -, rfl⟩ := supportFiles_php l made
      rfl

namespace Consists

variable {definitions : List Definition} {entities clients support : Tree}
  (parts : Consists e definitions actions entities clients support)
include parts

/-- The methods of a tree are those of its clients. -/
theorem methods_eq :
    (entities ++ clients ++ support).flatMap (·.2.methods) = clients.flatMap (·.2.methods) := by
  have none : entities.flatMap (·.2.methods) = [] := by
    rw [List.flatMap_eq_nil_iff]
    intro entry h
    obtain ⟨d, -, -, source⟩ := exists_zip_right parts.entity h
    exact methods_of_entitySource source
  rw [List.flatMap_append, List.flatMap_append, none, methods_of_supportFiles parts.others,
    List.nil_append, List.append_nil]

/-- What the file of each client shows of its actions, the files of all clients show of the
actions of all groups in order. -/
theorem rel_clients {β : Type} {R : Action → β → Prop} {shown : SourceFile → List β}
    (each : ∀ {client group file}, clientSource e definitions client group = .ok file →
      List.Forall₂ R group (shown file)) :
    List.Forall₂ R ((groupByClient actions).flatMap (·.2)) (clients.flatMap (shown ·.2)) := by
  have groups := parts.client
  generalize groupByClient actions = named at groups ⊢
  clear parts
  induction groups with
  | nil => exact .nil
  | cons head _ ih =>
      obtain ⟨-, -, source⟩ := head
      rw [List.flatMap_cons, List.flatMap_cons]
      exact List.rel_append (each source) ih

omit parts in
/-- The actions of the groups are the actions that were given, client by client. -/
theorem groups_perm : ((groupByClient actions).flatMap (·.2)).Perm actions := by
  rw [groupByClient_eq, List.flatMap_map]
  exact flatMap_filter_perm (nodup_clientsOf actions) fun a ha =>
    mem_clientsOf.mpr ⟨a, ha, rfl⟩

end Consists

/-- The methods of a tree call its actions, each of them once. -/
theorem exists_order_of_render {definitions : List Definition} {tree : Tree}
    (rendered : render e definitions actions = .ok tree) :
    ∃ order, order.Perm actions ∧
      List.Forall₂ (Calls e.language definitions) order (tree.flatMap (·.2.methods)) := by
  obtain ⟨-, entities, clients, support, rfl, parts⟩ := render_eq_ok.mp rendered
  exact ⟨_, Consists.groups_perm, parts.methods_eq ▸ parts.rel_clients calls_of_clientSource⟩

end ClientForge.Emission
