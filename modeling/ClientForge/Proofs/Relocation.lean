import ClientForge.Proofs.DocumentKind
import ClientForge.Proofs.ResourceTree

/-!
# Trees that are moved

A specification that is loaded from a tree of documents is told by the tree. The folder in
which a copy of the tree lies enters in two ways only: in the location that a failure
reports, which is that of the flaw in this copy, and in the kinds of the documents. Between
folders that tell the kinds alike a tree can therefore be moved.
-/

namespace ClientForge

open FilePath FileStore ClientForge.Outcome

namespace Loading

/-- A computation for copies of a tree that is the same in every folder, but for where the
flaw lies that it comes upon. -/
def Portable {α : Type} (x : FilePath → Outcome α) : Prop :=
  ∃ y : Except Flaw α, ∀ d, x d = y.mapError (Flaw.failure d)

namespace Portable

variable {α β : Type} {x : FilePath → Outcome α} {g : FilePath → α → Outcome β}

theorem ok (a : α) : Portable fun _ => .ok a := ⟨.ok a, fun _ => rfl⟩

theorem misused (cause : Misuse) : Portable fun _ => (ClientForge.misused cause : Outcome α) :=
  ⟨.error (.misuse cause), fun _ => rfl⟩

/-- A fault that is reported at the place of a document. -/
theorem fault (parts : List String) (fault : SpecificationFault) :
    Portable fun d => (.error (.specification fault (some (d.below parts).text)) : Outcome α) :=
  ⟨.error (.faulty parts fault), fun _ => rfl⟩

theorem bind (first : Portable x) (rest : ∀ a, Portable fun d => g d a) :
    Portable fun d => x d >>= g d := by
  obtain ⟨y, same⟩ := first
  cases y with
  | error flaw =>
      refine ⟨.error flaw, fun d => ?_⟩
      change x d >>= g d = _
      rw [same]
      rfl
  | ok a =>
      obtain ⟨z, same'⟩ := rest a
      refine ⟨z, fun d => ?_⟩
      change x d >>= g d = _
      rw [same, ← same']
      rfl

theorem needWritable (vs : List Value) : Portable fun _ => ClientForge.needWritable vs := by
  unfold ClientForge.needWritable
  split
  · exact ok ()
  · exact misused .badValue

theorem mapM {items : List α} {each : FilePath → α → Outcome β}
    (portable : ∀ a, Portable fun d => each d a) : Portable fun d => items.mapM (each d) := by
  induction items with
  | nil => exact ok []
  | cons a rest ih =>
      simp only [List.mapM_cons]
      exact (portable a).bind fun b => ih.bind fun bs => ok (b :: bs)

/-- Whether a portable computation succeeds does not depend on the folder. -/
theorem isOk_eq (portable : Portable x) (d d' : FilePath) : (x d).isOk = (x d').isOk := by
  obtain ⟨y, same⟩ := portable
  rw [same, same]
  cases y <;> rfl

end Portable

theorem isOk_mapError {ε ε' α : Type} (f : ε → ε') (x : Except ε α) :
    (x.mapError f).isOk = x.isOk := by
  cases x <;> rfl

end Loading

namespace Specification

open ClientForge.Value Loading

variable {parts : List String}

/-! ## Reading a document -/

/-- What is wrong with the document at a path, as it is reported in a folder. -/
def failAt (parts : List String) (d : FilePath) (fault : SpecificationFault) : Failure :=
  .specification fault (some (d.below parts).text)

theorem portable_declarations (section_ : String) (node : Value) :
    Portable fun d => declarations (failAt parts d) section_ node := by
  cases node with
  | null => exact .ok _
  | map es => exact (Portable.needWritable _).bind fun _ => .ok _
  | list entries =>
      refine Portable.bind (.mapM fun entry => ?_) fun all => .ok _
      cases entry with
      | map es => exact (Portable.needWritable _).bind fun _ => .ok _
      | _ => exact (Portable.needWritable _).bind fun _ => .fault parts _
  | _ => exact .fault parts _

theorem portable_traitNames (v : Value) : Portable fun _ => traitNames v := by
  have names (items : List Value) : Portable fun _ => allAppliedNames items :=
    (Portable.needWritable _).bind fun _ => .ok _
  cases v with
  | list items => exact names items
  | tuple items => exact names items
  | set items => exact names items
  | null => exact .ok _
  | str s => exact .ok _
  | map es => exact .ok _
  | bytes bs => exact .ok _
  | _ => exact .misused .wrongType

theorem portable_visit (client : String) (traits : Table Value) (stop : Stop) :
    Portable fun d => visit ⟨client, traits, some (d.below parts).text⟩ stop := by
  cases stop with
  | resource es => exact (portable_traitNames _).bind fun _ => .ok _
  | method m =>
      unfold visit methodAction
      dsimp only
      split
      · simp only [action_eq]
        refine Portable.bind (.bind ?_ fun request => (Portable.needWritable _).bind fun _ => .ok _)
          fun a => .ok [a]
        unfold requestOf
        split
        · exact .ok _
        · exact (portable_traitNames _).bind fun own =>
            .ok (traitRequest ⟨client, traits, none⟩ (own ++ inheritedNames m.resource))
      · exact .fault parts _

theorem portable_visitAll (client : String) (traits : Table Value)
    (stops : List (List Nat × Stop)) :
    Portable fun d => visitAll ⟨client, traits, some (d.below parts).text⟩ stops := by
  induction stops with
  | nil => exact .ok []
  | cons x rest ih =>
      exact (portable_visit client traits x.2).bind fun here => ih.bind fun more => .ok _

/-- The specification that a document gives is told by the document. -/
theorem portable_ofDocument (document : Value) (client : Option String) :
    Portable fun d => ofDocument document client (some (d.below parts).text) := by
  cases document with
  | map es =>
      have written (v : Value) : Portable fun _ => written v :=
        (Portable.needWritable _).bind fun _ => .ok _
      refine Portable.bind (written _) fun title => Portable.bind (portable_declarations _ _)
        fun types => Portable.bind (portable_declarations _ _) fun traits => Portable.bind ?_
          fun actions => (Portable.needWritable _).bind fun _ => .ok _
      simp only [documentActions_eq_visitAll 0]
      exact portable_visitAll _ traits _
  | _ => exact .fault parts _

end Specification

namespace Loading

variable {tree : FileStore} {shelf shelf' : Shelf} {d d' : FilePath} {root : String}
  {client : Option String} {flaw : Flaw} {depth : Nat}

/-! ## Loading from a folder -/

/-- Load the document of a name in a folder. -/
def load (shelf : Shelf) (d : FilePath) (root : String) (client : Option String) :
    Outcome Specification :=
  (specification shelf (d.child root).text client).outcome

/-- A tree of documents that lies in a folder and can be loaded there: the references that are
met are relative, stay inside of the tree and lead to no document again, and no path that is
met is too long. -/
structure Lies (tree : FileStore) (root : String) (shelf : Shelf) (d : FilePath) : Prop where
  copy : HoldsCopy shelf.store d tree
  relative : (ofText root).isAbsolute = false
  coherent : Coherent tree (kindIn d) (ofText root).parts
  fits : Fits tree (kindIn d) (ofText root).parts d

/-- Two loads of a tree, from folders of their own, come to the same: to one specification, or
to one flaw of the tree, reported at its place in the respective folder. -/
def Agree (d d' : FilePath) (x x' : Outcome Specification) : Prop :=
  ∃ result : Except Flaw Specification,
    x = result.mapError (Flaw.failure d) ∧ x' = result.mapError (Flaw.failure d')

/-- Whether trees can be moved from one folder to another: loads from both agree, and a missing
file or a malformed document that is met is what both fail with. -/
def Relocates (d d' : FilePath) : Prop :=
  ∀ (tree : FileStore) (shelf shelf' : Shelf) (root : String) (client : Option String),
    Lies tree root shelf d → Lies tree root shelf' d' →
      Agree d d' (load shelf d root client) (load shelf' d' root client) ∧
        ∀ flaw, Breaks tree (kindIn d) (ofText root).parts flaw →
          load shelf d root client = .error (flaw.failure d) ∧
            load shelf' d' root client = .error (flaw.failure d')

namespace Lies

variable (lies : Lies tree root shelf d)
include lies

theorem child_eq : d.child root = d.below (ofText root).parts := by
  rw [child, join, lies.relative]
  rfl

/-- What is loaded is what the tree means. -/
theorem load_eq (client : Option String) : load shelf d root client =
    ((valueOf tree (kindIn d) shelf.depth (ofText root).parts).mapError (Flaw.failure d) >>=
      fun document =>
        Specification.ofDocument document client (some (d.below (ofText root).parts).text)) := by
  have proper : AreProper (ofText root).parts := (readable_ofText root).parts
  rw [load, outcome_specification, lies.child_eq,
    outcome_value lies.coherent lies.fits proper lies.copy shelf.depth .refl]

/-- The depth that is given to a load is enough. -/
theorem valueOf_eq (enough : shelf.depth ≤ depth) :
    valueOf tree (kindIn d) depth (ofText root).parts =
      valueOf tree (kindIn d) shelf.depth (ofText root).parts := by
  have few : shelf.store.nodes.length < shelf.depth := by
    rw [Shelf.depth]
    omega
  exact valueOf_eq_of_count lies.coherent (hasAtMost_of_copy lies.copy) few enough

/-- A flaw that is met is what a load fails with. -/
theorem load_of_breaks (breaks : Breaks tree (kindIn d) (ofText root).parts flaw)
    (client : Option String) : load shelf d root client = .error (flaw.failure d) := by
  obtain ⟨enough, failed⟩ := breaks.fails
  have reached : valueOf tree (kindIn d) shelf.depth (ofText root).parts = .error flaw := by
    rw [← lies.valueOf_eq (Nat.le_max_right enough shelf.depth)]
    exact failed _ (Nat.le_max_left enough shelf.depth)
  rw [lies.load_eq, reached]
  rfl

end Lies

/-- Loads from folders that tell the kinds of documents alike agree. -/
theorem Lies.agree (lies : Lies tree root shelf d) (lies' : Lies tree root shelf' d')
    (same : kindIn d = kindIn d') (client : Option String) :
    Agree d d' (load shelf d root client) (load shelf' d' root client) := by
  have deep : valueOf tree (kindIn d') shelf'.depth (ofText root).parts =
      valueOf tree (kindIn d) shelf.depth (ofText root).parts := by
    rw [← lies.valueOf_eq (Nat.le_max_left shelf.depth shelf'.depth),
      ← lies'.valueOf_eq (Nat.le_max_right shelf.depth shelf'.depth), same]
  rw [lies.load_eq, lies'.load_eq, deep]
  cases valueOf tree (kindIn d) shelf.depth (ofText root).parts with
  | error flaw => exact ⟨.error flaw, rfl, rfl⟩
  | ok document =>
      have portable : Portable fun d =>
          Specification.ofDocument document client (some (d.below (ofText root).parts).text) :=
        Specification.portable_ofDocument document client
      obtain ⟨result, told⟩ := portable
      exact ⟨result, told d, told d'⟩

/-- Trees can be moved between folders that are alike. -/
theorem Alike.relocates (alike : Alike d d') : Relocates d d' := by
  intro tree shelf shelf' root client lies lies'
  have same := alike.kindIn_eq lies.copy.readable lies'.copy.readable
  refine ⟨lies.agree lies' same client, fun flaw breaks => ?_⟩
  exact ⟨lies.load_of_breaks breaks client, lies'.load_of_breaks (same ▸ breaks) client⟩

end Loading

end ClientForge
