import ClientForge.Generation
import ClientForge.Proofs.FileAccess
import ClientForge.Proofs.Outcome

/-!
# Replacing a tree

A run takes a workspace to an outcome and to the workspace that it leaves. What can go
wrong while the previous tree is cleared and the next one is written is a failed access
to the store, except for three things. Two of them leave the store alone: a target that is
too long to be looked for, and one whose path no store can have. The third is a file whose
text has no bytes. It is met when the file is written, after the previous tree is gone.
-/

namespace ClientForge

/-- Whether a failure reports that the store could not be cleared or written. -/
def Failure.IsOfStore : Failure → Prop
  | .emission (.notWritten _ _ _) => True
  | .emission (.notCleared _ _ _) => True
  | _ => False

/-- Such a failure is reported. -/
theorem Failure.isReported_of_isOfStore {f : Failure} (h : f.IsOfStore) : f.isReported = true := by
  cases f with
  | emission fault => rfl
  | _ => cases h

namespace Run

variable {α β : Type} {x : Run α} {g : α → Run β} {w w' : Workspace} {f : Failure}

/-- What a run gives from a workspace, and what it leaves there. -/
def outcome (x : Run α) (w : Workspace) : Outcome α × Workspace := x.run.run w

/-- A run of two steps ends where the first one fails, or where the second one ends. -/
theorem outcome_bind (x : Run α) (g : α → Run β) (w : Workspace) :
    (x >>= g).outcome w =
      match x.outcome w with
      | (.ok a, v) => (g a).outcome v
      | (.error f, v) => (.error f, v) := by
  change ExceptT.bindCont g (x.outcome w).1 (x.outcome w).2 = _
  rcases x.outcome w with ⟨_ | _, _⟩ <;> rfl

theorem bind_eq_ok {b : β} : (x >>= g).outcome w = (.ok b, w') ↔
    ∃ a v, x.outcome w = (.ok a, v) ∧ (g a).outcome v = (.ok b, w') := by
  rw [outcome_bind]
  rcases x.outcome w with ⟨f | a, v⟩ <;> simp

theorem bind_eq_error : (x >>= g).outcome w = (.error f, w') ↔
    x.outcome w = (.error f, w') ∨
      ∃ a v, x.outcome w = (.ok a, v) ∧ (g a).outcome v = (.error f, w') := by
  rw [outcome_bind]
  rcases x.outcome w with ⟨f | a, v⟩ <;> simp

@[simp] theorem outcome_pure (a : α) (w : Workspace) :
    (pure a : Run α).outcome w = (.ok a, w) := rfl

@[simp] theorem outcome_get (w : Workspace) : (get : Run Workspace).outcome w = (.ok w, w) := rfl

@[simp] theorem outcome_ofOutcome (o : Outcome α) (w : Workspace) :
    (ofOutcome o).outcome w = (o, w) := rfl

@[simp] theorem outcome_tell (rs : List Record) (w : Workspace) :
    (tell rs).outcome w = (.ok (), { w with records := w.records ++ rs }) := rfl

@[simp] theorem outcome_set (v w : Workspace) :
    (set v : Run PUnit).outcome w = (.ok ⟨⟩, v) := rfl

@[simp] theorem outcome_throw (f : Failure) (w : Workspace) :
    (throw f : Run α).outcome w = (.error f, w) := rfl

@[simp] theorem outcome_change (attempt : FileStore → FileStore.Change α)
    (fail : AccessFault → Failure) (w : Workspace) :
    (change attempt fail).outcome w =
      ((attempt w.store).1.mapError fail, { w with store := (attempt w.store).2 }) := by
  rw [change, outcome_bind, outcome_get]
  rcases attempted : attempt w.store with ⟨fault | a, store⟩
  · simp only [attempted, outcome_bind, outcome_set, outcome_throw, Except.mapError]
  · simp only [attempted, outcome_bind, outcome_set, outcome_pure, Except.mapError]

end Run

namespace Generation

open ClientForge.Emission

variable {l : Language} {root target : FilePath} {tree : Tree} {w w' : Workspace} {f : Failure}

/-- Every path of a tree leads from a folder to something in it. -/
def IsInner (tree : Tree) : Prop := ∀ path ∈ Table.names tree, (FilePath.ofText path).Inner

theorem writeFile_of_isBarred (file : SourceFile) (barred : target.parent.isBarred = true) :
    (writeFile l target file).outcome w = (.error (.misuse target.parent.barring), w) := by
  rw [writeFile, Run.outcome_change, FileStore.write_of_isBarred _ barred]
  simp [Except.mapError, writeFailure, AccessError.misuse?]

/-- Elsewhere a file is refused by the store, or has no bytes. -/
theorem writeFile_error {file : SourceFile} (clean : target.parent.isBarred = false)
    (failed : (writeFile l target file).outcome w = (.error f, w')) :
    f.IsOfStore ∨ (Text.isEncodable file.text = false ∧ f = .misuse .unencodable) := by
  rw [writeFile, Run.outcome_change] at failed
  obtain ⟨failed, -⟩ := Prod.mk.inj failed
  cases written : (w.store.write target (Text.encode? file.text)).1 with
  | ok _ =>
      rw [written] at failed
      cases failed
  | error fault =>
      rw [written] at failed
      obtain rfl := Except.error.inj failed
      rcases FileStore.misuse?_of_write clean written with store | ⟨none, cause⟩
      · exact .inl (by simp [writeFailure, store, Failure.IsOfStore])
      · refine .inr ⟨?_, by simp [writeFailure, cause, AccessError.misuse?]⟩
        exact Text.encode?_eq_none_iff.mp none

/-- Whether every file of a tree has bytes. -/
def IsEncodable (tree : Tree) : Prop := ∀ e ∈ tree, Text.isEncodable e.2.text = true

/-- Below a path that no store can have the first file of a tree is not written. -/
theorem writeFiles_of_isBarred (inner : IsInner tree) (nonempty : tree ≠ [])
    (barred : root.isBarred = true) :
    (writeFiles l root tree).outcome w = (.error (.misuse root.barring), w) := by
  cases tree with
  | nil => exact absurd rfl nonempty
  | cons entry tree =>
      have stays := inner _ List.mem_cons_self
      have parent : (root.child entry.1).parent.isBarred = true := by
        rw [FilePath.child, FilePath.isBarred_parent_join stays, barred]
      rw [writeFiles, Run.outcome_bind, writeFile_of_isBarred _ parent, FilePath.child,
        FilePath.barring_parent_join stays]

/-- Below any other path a file is refused by the store, or one has no bytes. -/
theorem writeFiles_error (inner : IsInner tree) (clean : root.isBarred = false)
    (failed : (writeFiles l root tree).outcome w = (.error f, w')) :
    f.IsOfStore ∨ (¬ IsEncodable tree ∧ f = .misuse .unencodable) := by
  induction tree generalizing w with
  | nil => simp [writeFiles] at failed
  | cons entry tree ih =>
      have parent : (root.child entry.1).parent.isBarred = false := by
        rw [FilePath.child, FilePath.isBarred_parent_join (inner _ List.mem_cons_self), clean]
      rw [writeFiles] at failed
      rcases Run.bind_eq_error.mp failed with first | ⟨-, v, -, rest⟩
      · refine (writeFile_error parent first).imp_right (And.imp_left fun without all => ?_)
        simp [all entry List.mem_cons_self] at without
      · rcases Run.bind_eq_error.mp rest with later | ⟨more, u, -, last⟩
        · refine (ih (fun path hp => inner path (List.mem_cons_of_mem _ hp)) later).imp_right
            (And.imp_left fun without all => without fun e he => all e (List.mem_cons_of_mem _ he))
        · simp at last

/-- Only files with bytes are written. -/
theorem isEncodable_of_writeFiles {written : List FilePath}
    (done : (writeFiles l root tree).outcome w = (.ok written, w')) : IsEncodable tree := by
  induction tree generalizing w w' written with
  | nil => nofun
  | cons entry tree ih =>
      rw [writeFiles] at done
      obtain ⟨⟨⟩, v, first, rest⟩ := Run.bind_eq_ok.mp done
      obtain ⟨more, u, later, -⟩ := Run.bind_eq_ok.mp rest
      refine List.forall_mem_cons.mpr ⟨?_, ih later⟩
      by_contra without
      rw [writeFile, Run.outcome_change,
        Text.encode?_eq_none_iff.mpr (Bool.eq_false_iff.mpr without)] at first
      cases wrote : (w.store.write (root.child entry.1) none).1 with
      | ok _ => exact FileStore.write_none_ne_ok wrote
      | error fault =>
          rw [wrote] at first
          cases first

theorem clear_of_isBarred (barred : target.isBarred = true) :
    (clear l target).outcome w = (.ok (), w) := by
  simp [clear, Configuration.pathExists, FileStore.has_of_isBarred barred, Run.outcome_bind]

/-- Clearing fails in the store, or because the store cannot even look for the target. -/
theorem clear_error (failed : (clear l target).outcome w = (.error f, w')) :
    f.IsOfStore ∨ (Configuration.pathExists w.store target = .error f ∧ w'.store = w.store) := by
  rw [clear] at failed
  rcases Run.bind_eq_error.mp failed with first | ⟨before, v, got, rest⟩
  · simp at first
  · rw [Run.outcome_get] at got
    obtain ⟨same, rfl⟩ := Prod.mk.inj got
    obtain rfl := Except.ok.inj same
    rcases Run.bind_eq_error.mp rest with absent | ⟨there, v, found, rest⟩
    · rw [Run.outcome_ofOutcome] at absent
      obtain ⟨lost, rfl⟩ := Prod.mk.inj absent
      exact .inr ⟨lost, rfl⟩
    · cases there with
      | false => simp at rest
      | true =>
          rcases Run.bind_eq_error.mp rest with told | ⟨-, u, -, removed⟩
          · simp at told
          · rw [Run.outcome_change] at removed
            obtain ⟨removed, -⟩ := Prod.mk.inj removed
            cases attempt : (u.store.removeTree target).1 with
            | ok _ =>
                rw [attempt] at removed
                cases removed
            | error fault =>
                rw [attempt] at removed
                obtain rfl := Except.error.inj removed
                exact .inl trivial

/-- Put a tree into the place of what is at its root. -/
def replace (l : Language) (root : FilePath) (tree : Tree) : Run (List FilePath) := do
  clear l root
  writeTree l root tree

/-- A tree that is not put in place fails in the store, leaves the store alone, or has a file
without bytes. -/
theorem replace_error (inner : IsInner tree) (nonempty : tree ≠ [])
    (failed : (replace l root tree).outcome w = (.error f, w')) :
    f.IsOfStore ∨ w'.store = w.store ∨ (¬ IsEncodable tree ∧ f = .misuse .unencodable) := by
  rcases Run.bind_eq_error.mp failed with cleared | ⟨⟨⟩, v, cleared, written⟩
  · exact (clear_error cleared).imp_right fun lost => .inl lost.2
  · rw [writeTree] at written
    rcases Run.bind_eq_error.mp written with files | ⟨_, u, -, told⟩
    · cases barred : root.isBarred with
      | false => exact (writeFiles_error inner barred files).imp_right .inr
      | true =>
          rw [clear_of_isBarred barred] at cleared
          rw [writeFiles_of_isBarred inner nonempty barred] at files
          obtain ⟨-, rfl⟩ := Prod.mk.inj cleared
          obtain ⟨-, rfl⟩ := Prod.mk.inj files
          exact .inr (.inl rfl)
    · rcases Run.bind_eq_error.mp told with told | ⟨⟨⟩, _, -, last⟩
      · simp at told
      · simp at last

/-- Where the store can look for the root, and files below it can have a path and have bytes,
a tree that is not put in place fails in the store. -/
theorem isOfStore_of_replace (inner : IsInner tree) (clean : root.isBarred = false)
    (bytes : IsEncodable tree) (found : ∃ there, w.store.has root = .ok there)
    (failed : (replace l root tree).outcome w = (.error f, w')) : f.IsOfStore := by
  obtain ⟨there, found⟩ := found
  rcases Run.bind_eq_error.mp failed with cleared | ⟨⟨⟩, v, cleared, written⟩
  · refine (clear_error cleared).resolve_right fun ⟨lost, _⟩ => ?_
    simp [Configuration.pathExists, found] at lost
  · rcases Run.bind_eq_error.mp written with files | ⟨_, u, -, told⟩
    · exact (writeFiles_error inner clean files).resolve_right fun without => without.1 bytes
    · rcases Run.bind_eq_error.mp told with told | ⟨⟨⟩, _, -, last⟩
      · simp at told
      · simp at last

end Generation

end ClientForge
