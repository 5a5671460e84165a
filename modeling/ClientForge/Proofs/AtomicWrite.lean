import ClientForge.Proofs.Reluctance

/-!
# Writing a tree into a store that may refuse

The files of a tree are written one after another, and any step of any of them may be
refused. What is written before stays written while the next files are written: they have
other places, and folders are made only on ways that are not made yet. So a tree whose
writing stops at some file leaves the files before it in place and every other file as it
was, and a tree that is written can be written again without a change. Two things are not
reported as a failed write: a root that no store can have, and a file whose text has no
bytes. A store has files and folders only, so all of this is said of stores without links.
-/

namespace ClientForge

open FilePath

namespace Run

variable {ε α : Type}

/-- A change of the store that fails in its own way, with the failure that stands for it. -/
def changeWith (f : FileStore → Except ε α × FileStore) (fail : ε → Failure) : Run α := do
  let w ← get
  let (outcome, store) := f w.store
  set { w with store }
  match outcome with
  | .ok x => pure x
  | .error fault => throw (fail fault)

@[simp] theorem outcome_changeWith (attempt : FileStore → Except ε α × FileStore)
    (fail : ε → Failure) (w : Workspace) :
    (changeWith attempt fail).outcome w =
      ((attempt w.store).1.mapError fail, { w with store := (attempt w.store).2 }) := by
  rw [changeWith, outcome_bind, outcome_get]
  rcases attempted : attempt w.store with ⟨fault | a, store⟩
  · simp only [attempted, outcome_bind, outcome_set, outcome_throw, Except.mapError]
  · simp only [attempted, outcome_bind, outcome_set, outcome_pure, Except.mapError]

end Run

namespace FileStore

variable {fs fs' fs'' : FileStore} {t : FilePath} {path : String} {paths more : List String}
  {content : ByteArray}

section Child

variable (lasting : Lasting path)
include lasting

theorem parts_parent_child :
    (t.child path).parent.parts = t.parts ++ (Text.split '/' path).dropLast := by
  rw [child, parent_join_of_inner lasting.inner, lasting.parts_eq]

/-- The last part of a path stays. -/
theorem exists_last :
    ∃ part, (Text.split '/' path).getLast? = some part ∧ isLasting part = true := by
  have named : Text.split '/' path ≠ [] := lasting.parts_eq ▸ lasting.inner.named
  exact ⟨_, List.getLast?_eq_some_getLast named, lasting.parts _ (List.getLast_mem named)⟩

theorem name_child_ne_dots : (t.child path).name ≠ ".." := by
  obtain ⟨part, last, stays⟩ := exists_last lasting
  rw [FilePath.name, parts_child lasting, List.getLast?_append, last, Option.some_or,
    Option.getD_some]
  rintro rfl
  rw [not_isLasting_dots] at stays
  cases stays

theorem place_child (plain : ".." ∉ fs.cwd) :
    (t.child path).place fs.cwd = t.place fs.cwd ++ Text.split '/' path := by
  rw [child, join_of_inner lasting.inner, lasting.parts_eq]
  exact place_append plain (lasting.parts_eq ▸ lasting.dots_notMem)

/-- The place of a file is not that of a temporary neighbour. -/
theorem place_child_ne (plain : ".." ∉ fs.cwd) (folder : Location) (name : String) (n : Nat) :
    folder ++ [temporaryName name n] ≠ (t.child path).place fs.cwd := by
  intro same
  obtain ⟨part, last, stays⟩ := exists_last lasting
  have ends := congrArg List.getLast? same
  rw [place_child lasting plain, List.getLast?_concat, List.getLast?_append, last,
    Option.some_or] at ends
  rw [← Option.some.inj ends, isLasting_temporaryName] at stays
  cases stays

/-- Two files of a tree have two places. -/
theorem place_child_injective {other : String} (lasting' : Lasting other) (plain : ".." ∉ fs.cwd)
    (same : (t.child path).place fs.cwd = (t.child other).place fs.cwd) : path = other := by
  rw [place_child lasting plain, place_child lasting' plain, List.append_cancel_left_eq] at same
  exact Text.split_injective same

/-- A location on the way to a file is on the way to its root, or its last part stays. -/
theorem OnWay.cases {at_ : Location} (plain : ".." ∉ fs.cwd)
    (way : OnWay fs.cwd (t.child path).parent at_) :
    OnWay fs.cwd t at_ ∨ ∃ part, at_.getLast? = some part ∧ isLasting part = true := by
  obtain ⟨parts, above, rfl⟩ := way
  have root : (t.child path).parent.root = t.root := by
    rw [child, parent_join_of_inner lasting.inner]
  rw [parts_parent_child lasting] at above
  rw [root]
  rcases List.prefix_or_prefix_of_prefix above (List.prefix_append _ _) with outer | ⟨down, rfl⟩
  · exact .inl ⟨parts, outer, rfl⟩
  · rw [List.prefix_append_right_inj] at above
    by_cases none : down = []
    · exact .inl ⟨t.parts, List.prefix_refl _, by simp [none]⟩
    · right
      have stays : ∀ part ∈ down, isLasting part = true := fun part hp =>
        lasting.parts part (List.dropLast_subset _ (above.subset hp))
      have forward : ".." ∉ down := by
        intro dots
        have stay := stays _ dots
        rw [not_isLasting_dots] at stay
        cases stay
      refine ⟨down.getLast none, ?_, stays _ (List.getLast_mem none)⟩
      rw [place_append plain forward, List.getLast?_append, List.getLast?_eq_some_getLast none,
        Option.some_or]

end Child

/-- What is on the way to a folder that is there is a folder. -/
theorem folder_of_onWay {p : FilePath} {at_ : Location} (sound : fs.IsSound)
    (there : fs.hasFolder p = true) (way : OnWay fs.cwd p at_) :
    fs.node? at_ = some .folder := by
  obtain ⟨place, found, folder⟩ := hasFolder_iff.mp there
  obtain ⟨parts, above, rfl⟩ := way
  by_cases whole : parts = p.parts
  · rw [whole, ← place_of_locate sound.plain found, folder]
  · exact folder_of_locate sound found rfl above whole

/-- Whether a sound store is another one in which files may have been written below a root
and folders made on the way to such files. -/
structure Builds (t : FilePath) (paths : List String) (fs fs' : FileStore) : Prop where
  retains : Retains fs fs'
  sound : fs'.IsSound
  kept : ∀ at_, (∀ path ∈ paths, at_ ≠ (t.child path).place fs.cwd) →
    fs'.node? at_ = fs.node? at_ ∨ (fs.node? at_ = none ∧ fs'.node? at_ = some .folder ∧
      ∃ path, Lasting path ∧ OnWay fs.cwd (t.child path).parent at_)

namespace Builds

theorem refl (sound : fs.IsSound) : Builds t [] fs fs :=
  ⟨⟨rfl, fun _ h => h⟩, sound, fun _ _ => .inl rfl⟩

theorem trans (first : Builds t paths fs fs') (second : Builds t more fs' fs'') :
    Builds t (paths ++ more) fs fs'' := by
  refine ⟨⟨second.retains.cwd.trans first.retains.cwd, fun at_ folder =>
    second.retains.folder at_ (first.retains.folder at_ folder)⟩, second.sound, ?_⟩
  intro at_ elsewhere
  rw [List.forall_mem_append] at elsewhere
  have later := second.kept at_
  rw [first.retains.cwd] at later
  rcases later elsewhere.2 with same | ⟨none, made, way⟩
  · rw [same]
    exact first.kept at_ elsewhere.1
  · rcases first.kept at_ elsewhere.1 with same | ⟨-, folder, -⟩
    · exact .inr ⟨same ▸ none, made, way⟩
    · rw [none] at folder
      cases folder

/-- Every other file is as before. -/
theorem content?_eq (builds : Builds t paths fs fs') {at_ : Location}
    (elsewhere : ∀ path ∈ paths, at_ ≠ (t.child path).place fs.cwd) :
    (fs'.node? at_).bind Node.content? = (fs.node? at_).bind Node.content? := by
  rcases builds.kept at_ elsewhere with same | ⟨none, folder, -⟩
  · rw [same]
  · simp [folder, none, Node.content?]

end Builds

theorem Lands.builds (lands : Lands (t.child path) content fs fs') (lasting : Lasting path) :
    Builds t [path] fs fs' := by
  refine ⟨⟨lands.cwd, fun at_ folder => ?_⟩, lands.sound, fun at_ elsewhere => ?_⟩
  · have other : at_ ≠ (t.child path).place fs.cwd := by
      rintro rfl
      exact lands.vacant folder
    rcases lands.kept at_ other with same | ⟨none, made, -⟩
    · rw [same, folder]
    · exact made
  · refine (lands.kept at_ (elsewhere path List.mem_cons_self)).imp_right ?_
    rintro ⟨none, made, way⟩
    exact ⟨none, made, path, lasting, way⟩

theorem Paves.builds (paves : Paves (t.child path).parent fs fs') (lasting : Lasting path) :
    Builds t [] fs fs' := by
  refine ⟨paves.retains, paves.sound, fun at_ _ => (paves.kept at_).imp_right ?_⟩
  rintro ⟨none, made, way⟩
  exact ⟨none, made, path, lasting, way⟩

/-- A settled file stays settled while others are written. -/
theorem Builds.settled (builds : Builds t paths fs fs') (sound : fs.IsSound)
    (lasting : Lasting path) (others : ∀ other ∈ paths, Lasting other) (fresh : path ∉ paths)
    (settled : Settled fs (t.child path) content) : Settled fs' (t.child path) content := by
  have plain := sound.plain
  refine settled.of_kept builds.retains ?_ fun m => ?_
  · have apart : ∀ other ∈ paths, (t.child path).place fs.cwd ≠ (t.child other).place fs.cwd :=
      fun other ho same => fresh (place_child_injective lasting (others other ho) plain same ▸ ho)
    refine (builds.kept _ apart).resolve_right fun made => ?_
    have there := settled.there
    rw [made.1] at there
    cases there
  · have apart : ∀ other ∈ paths, (t.child path).parent.place fs.cwd ++
        [temporaryName (t.child path).name m] ≠ (t.child other).place fs.cwd :=
      fun other ho => place_child_ne (others other ho) plain _ _ m
    refine (builds.kept _ apart).resolve_right ?_
    rintro ⟨none, -, other, stays, way⟩
    rcases way.cases stays plain with outer | ⟨part, last, stay⟩
    · -- the way to the root is made since the file was written
      have within : OnWay fs.cwd (t.child path).parent ((t.child path).parent.place fs.cwd ++
          [temporaryName (t.child path).name m]) := by
        obtain ⟨parts, above, same⟩ := outer
        refine ⟨parts, ?_, ?_⟩
        · rw [parts_parent_child lasting]
          exact above.trans (List.prefix_append _ _)
        · rw [same, child, parent_join_of_inner lasting.inner]
      rw [folder_of_onWay sound settled.folder within] at none
      cases none
    · rw [List.getLast?_concat] at last
      rw [← Option.some.inj last, isLasting_temporaryName] at stay
      cases stay

end FileStore

namespace Generation

open ClientForge.Emission FileStore

/-- What a store refuses while the file at a path is written. -/
abbrev Disk := FilePath → Refusal

/-- A disk that refuses nothing. -/
def Disk.willing : Disk := fun _ => .never

/-- The failure to write a file, whatever the reason. -/
def writeFailureOn (l : Language) (target : FilePath) : WriteFault → Failure
  | .access fault => writeFailure l target fault
  | .refused reason => .emission (.notWritten l target.text reason)

/-- Write one file on a disk. -/
def writeFileOn (disk : Disk) (l : Language) (target : FilePath) (file : SourceFile) : Run Unit :=
  Run.changeWith (fun store => store.writeOn (disk target) target (Text.encode? file.text))
    (writeFailureOn l target)

/-- Write files below a folder on a disk, one after another. -/
def writeFilesOn (disk : Disk) (l : Language) (root : FilePath) : Tree → Run (List FilePath)
  | [] => pure []
  | (path, file) :: rest => do
    let target := root.child path
    writeFileOn disk l target file
    let more ← writeFilesOn disk l root rest
    pure (target :: more)

/-- Write a tree below a folder on a disk. -/
def writeTreeOn (disk : Disk) (l : Language) (root : FilePath) (tree : Tree) :
    Run (List FilePath) := do
  let written ← writeFilesOn disk l root tree
  Run.tell [⟨.info, .emission,
    "Wrote " ++ toString written.length ++ " " ++ l.name ++ " files to " ++ root.text⟩]
  pure written

variable {disk : Disk} {l : Language} {root : FilePath} {tree : Tree} {w w' v : Workspace}

theorem writeFileOn_willing (l : Language) (target : FilePath) (file : SourceFile) :
    writeFileOn .willing l target file = writeFile l target file := by
  funext w
  change (writeFileOn .willing l target file).outcome w = (writeFile l target file).outcome w
  rw [writeFileOn, writeFile, Run.outcome_changeWith, Run.outcome_change, Disk.willing,
    writeOn_never]
  rcases w.store.write target (Text.encode? file.text) with ⟨_ | _, store⟩ <;> rfl

/-- On a willing disk a tree is written as it is anywhere. -/
theorem writeTreeOn_willing (l : Language) (root : FilePath) (tree : Tree) :
    writeTreeOn .willing l root tree = writeTree l root tree := by
  have files : writeFilesOn .willing l root tree = writeFiles l root tree := by
    induction tree with
    | nil => rfl
    | cons entry tree ih => rw [writeFilesOn, writeFiles, writeFileOn_willing, ih]
  rw [writeTreeOn, writeTree, files]

/-- Whether the files of a tree are settled below a root. -/
def AllSettled (root : FilePath) (tree : Tree) (fs : FileStore) : Prop :=
  ∀ e ∈ tree, ∃ content, Text.encode? e.2.text = some content ∧
    Settled fs (root.child e.1) content

/-- How writing a tree from a workspace ends: with the paths of all files, or at the first of
the files that remain, once those before it are written, for a reason that a write fails for. -/
def EndsWith (disk : Disk) (l : Language) (root : FilePath) (w : Workspace)
    (done rest : Tree) : Outcome (List FilePath) → Prop
  | .ok paths => rest = [] ∧ paths = done.map (root.child ·.1)
  | .error f => ∃ path file more fault paths between store, rest = (path, file) :: more ∧
      f = writeFailureOn l (root.child path) fault ∧
      (writeFilesOn disk l root done).outcome w = (.ok paths, between) ∧
      between.store.writeOn (disk (root.child path)) (root.child path)
        (Text.encode? file.text) = (.error fault, store)

/-- Either the first file of a tree is not written, and nothing is written behind it, or it
is written and the others are. -/
theorem outcome_writeFilesOn_cons (path : String) (file : SourceFile) :
    (writeFilesOn disk l root ((path, file) :: tree)).outcome w =
      match w.store.writeOn (disk (root.child path)) (root.child path)
        (Text.encode? file.text) with
      | (.error fault, fs) =>
        (.error (writeFailureOn l (root.child path) fault), { w with store := fs })
      | (.ok _, fs) =>
        (((writeFilesOn disk l root tree).outcome { w with store := fs }).1.map
            (root.child path :: ·),
          ((writeFilesOn disk l root tree).outcome { w with store := fs }).2) := by
  rw [writeFilesOn, Run.outcome_bind, writeFileOn, Run.outcome_changeWith]
  rcases w.store.writeOn (disk (root.child path)) (root.child path)
    (Text.encode? file.text) with ⟨fault | ⟨⟩, fs⟩
  · rfl
  · dsimp only [Except.mapError]
    rw [Run.outcome_bind]
    rcases (writeFilesOn disk l root tree).outcome { w with store := fs } with ⟨f | paths, u⟩ <;>
      rfl

/-- Where the first files of a tree are written, the others are written from there on. -/
theorem outcome_writeFilesOn_append {done rest : Tree} {paths : List FilePath}
    {between : Workspace}
    (first : (writeFilesOn disk l root done).outcome w = (.ok paths, between)) :
    (writeFilesOn disk l root (done ++ rest)).outcome w =
      (((writeFilesOn disk l root rest).outcome between).1.map (paths ++ ·),
        ((writeFilesOn disk l root rest).outcome between).2) := by
  induction done generalizing w paths with
  | nil =>
      obtain ⟨same, rfl⟩ := Prod.mk.inj first
      obtain rfl := Except.ok.inj same
      rw [List.nil_append]
      rcases (writeFilesOn disk l root rest).outcome w with ⟨f | _, _⟩ <;> rfl
  | cons entry done ih =>
      obtain ⟨path, file⟩ := entry
      rw [outcome_writeFilesOn_cons] at first
      rw [List.cons_append, outcome_writeFilesOn_cons]
      rcases wrote : w.store.writeOn (disk (root.child path)) (root.child path)
        (Text.encode? file.text) with ⟨fault | ⟨⟩, fs⟩
      · rw [wrote] at first
        cases first
      · rw [wrote] at first
        dsimp only at first ⊢
        rcases more : (writeFilesOn disk l root done).outcome { w with store := fs } with
          ⟨f | later, v⟩
        · rw [more] at first
          cases first
        · rw [more] at first
          obtain ⟨same, rfl⟩ := Prod.mk.inj first
          obtain rfl := Except.ok.inj same
          rw [ih more]
          rcases (writeFilesOn disk l root rest).outcome v with ⟨f | _, _⟩ <;> rfl

/-- Writing a tree settles its files up to the one that is not written. -/
theorem writeFilesOn_spec {o : Outcome (List FilePath)} (sound : w.store.IsSound)
    (lasting : ∀ path ∈ Table.names tree, Lasting path) (once : (Table.names tree).Nodup)
    (h : (writeFilesOn disk l root tree).outcome w = (o, w')) :
    ∃ done rest, tree = done ++ rest ∧ Builds root (Table.names done) w.store w'.store ∧
      AllSettled root done w'.store ∧ EndsWith disk l root w done rest o := by
  induction tree generalizing w w' o with
  | nil =>
      obtain ⟨rfl, rfl⟩ := Prod.mk.inj h
      exact ⟨[], [], rfl, .refl sound, nofun, rfl, rfl⟩
  | cons entry tree ih =>
      obtain ⟨path, file⟩ := entry
      rw [Table.names_cons, List.nodup_cons] at once
      have stays : Lasting path := lasting _ List.mem_cons_self
      have others : ∀ other ∈ Table.names tree, Lasting other :=
        fun other ho => lasting other (List.mem_cons_of_mem _ ho)
      rw [outcome_writeFilesOn_cons] at h
      rcases wrote : w.store.writeOn (disk (root.child path)) (root.child path)
        (Text.encode? file.text) with ⟨fault | ⟨⟩, fs⟩
      · rw [wrote] at h
        obtain ⟨rfl, rfl⟩ := Prod.mk.inj h
        have paves := (writeOn_spec sound (parts_child_ne_nil stays) (name_child_ne_dots stays)
          wrote).2 nofun
        exact ⟨[], (path, file) :: tree, rfl, paves.builds stays, nofun,
          path, file, tree, fault, [], w, fs, rfl, rfl, rfl, wrote⟩
      · rw [wrote] at h
        obtain ⟨content, bytes, landed⟩ := (writeOn_spec sound (parts_child_ne_nil stays)
          (name_child_ne_dots stays) wrote).1 rfl
        have first := landed.builds stays
        rcases onward : (writeFilesOn disk l root tree).outcome { w with store := fs } with
          ⟨result, u⟩
        dsimp only at h
        rw [onward] at h
        obtain ⟨rfl, rfl⟩ := Prod.mk.inj h
        obtain ⟨done, rest, rfl, builds, settled, ends⟩ := ih first.sound others once.2 onward
        rw [Table.names_append] at once others
        have fresh : path ∉ Table.names done := fun there =>
          once.1 (List.mem_append_left _ there)
        have settled' := builds.settled first.sound stays
          (fun other ho => others other (List.mem_append_left _ ho)) fresh landed.settled
        refine ⟨(path, file) :: done, rest, rfl, first.trans builds,
          List.forall_mem_cons.mpr ⟨⟨content, bytes, settled'⟩, settled⟩, ?_⟩
        cases result with
        | error f =>
            obtain ⟨name, last, more, fault, paths, between, store, behind, named, before, stops⟩ :=
              ends
            refine ⟨name, last, more, fault, root.child path :: paths, between, store, behind,
              named, ?_, stops⟩
            rw [outcome_writeFilesOn_cons, wrote]
            dsimp only
            rw [before]
            rfl
        | ok paths =>
            obtain ⟨none, rfl⟩ := ends
            exact ⟨none, rfl⟩

/-- Writing settled files again changes nothing, and succeeds if nothing is refused. -/
theorem writeFilesOn_of_settled {o : Outcome (List FilePath)} (sound : w.store.IsSound)
    (lasting : ∀ path ∈ Table.names tree, Lasting path) (settled : AllSettled root tree w.store)
    (h : (writeFilesOn disk l root tree).outcome w = (o, w')) :
    Same w.store w'.store ∧ (disk = .willing → o = .ok (tree.map (root.child ·.1))) := by
  induction tree generalizing w w' o with
  | nil =>
      obtain ⟨rfl, rfl⟩ := Prod.mk.inj h
      exact ⟨.refl _, fun _ => rfl⟩
  | cons entry tree ih =>
      obtain ⟨path, file⟩ := entry
      have stays : Lasting path := lasting _ List.mem_cons_self
      obtain ⟨content, bytes, here⟩ := settled (path, file) List.mem_cons_self
      rw [outcome_writeFilesOn_cons, bytes] at h
      rcases wrote : w.store.writeOn (disk (root.child path)) (root.child path) (some content) with
        ⟨fault | ⟨⟩, fs⟩
      · rw [wrote] at h
        obtain ⟨rfl, rfl⟩ := Prod.mk.inj h
        obtain ⟨same, succeeds⟩ := writeOn_of_settled sound (parts_child_ne_nil stays)
          (name_child_ne_dots stays) here wrote
        refine ⟨same, ?_⟩
        rintro rfl
        cases succeeds rfl
      · rcases onward : (writeFilesOn disk l root tree).outcome { w with store := fs } with
          ⟨result, u⟩
        rw [wrote] at h
        dsimp only at h
        rw [onward] at h
        obtain ⟨rfl, rfl⟩ := Prod.mk.inj h
        obtain ⟨same, -⟩ := writeOn_of_settled sound (parts_child_ne_nil stays)
          (name_child_ne_dots stays) here wrote
        have settled' : AllSettled root tree fs := fun e he => by
          obtain ⟨more, whole, there⟩ := settled e (List.mem_cons_of_mem _ he)
          exact ⟨more, whole, there.of_same same⟩
        obtain ⟨same', succeeds⟩ := ih (same.isSound sound)
          (fun other ho => lasting other (List.mem_cons_of_mem _ ho)) settled' onward
        refine ⟨same.trans same', fun willing => ?_⟩
        rw [succeeds willing]
        rfl

/-- The content of the file at a location, if there is one. -/
def contentAt (fs : FileStore) (at_ : Location) : Option ByteArray :=
  (fs.node? at_).bind Node.content?

/-- Whether some files of a tree are in place below a root, every other file being as it
was. -/
structure Placed (root : FilePath) (done : Tree) (fs fs' : FileStore) : Prop where
  written : ∀ e ∈ done, ∃ content, Text.encode? e.2.text = some content ∧
    contentAt fs' ((root.child e.1).place fs.cwd) = some content
  others : ∀ at_, (∀ e ∈ done, at_ ≠ (root.child e.1).place fs.cwd) →
    contentAt fs' at_ = contentAt fs at_

/-- Whether a tree is written below a root without harm from a workspace, where a disk
refuses some steps. If it is written, its files are in place, and writing it again changes
nothing: it succeeds, and where another disk refuses a step nothing is lost either. If it is
not written, the files up to one of them are in place, that one is as it was like all others,
and the failure is an emission failure that names it. -/
structure WritesSafely (disk : Disk) (l : Language) (root : FilePath) (tree : Tree)
    (w : Workspace) : Prop where
  completed : ∀ paths w', (writeTreeOn disk l root tree).outcome w = (.ok paths, w') →
    paths = tree.map (root.child ·.1) ∧ Placed root tree w.store w'.store ∧
    ∀ v, v.store = w'.store →
      ((writeTree l root tree).outcome v).1 = .ok paths ∧
      ∀ disk', Same v.store ((writeTreeOn disk' l root tree).outcome v).2.store
  interrupted : ∀ f w', (writeTreeOn disk l root tree).outcome w = (.error f, w') →
    ∃ done path file rest cause, tree = done ++ (path, file) :: rest ∧
      Placed root done w.store w'.store ∧
      contentAt w'.store ((root.child path).place w.store.cwd) =
        contentAt w.store ((root.child path).place w.store.cwd) ∧
      f = .emission (.notWritten l (root.child path).text cause)

/-- Whether writing a tree from a workspace comes to a file whose text has no bytes: the
files before it are written, and its own write gets as far as asking for the bytes. -/
def Strands (disk : Disk) (l : Language) (root : FilePath) (tree : Tree) (w : Workspace) : Prop :=
  ∃ done path file rest paths between, tree = done ++ (path, file) :: rest ∧
    Text.isEncodable file.text = false ∧
    (writeFilesOn disk l root done).outcome w = (.ok paths, between) ∧
    Opens (disk (root.child path)) between.store (root.child path)

/-- A tree of files that have bytes never comes to one that has none. -/
theorem not_strands_of_isEncodable (bytes : IsEncodable tree) : ¬ Strands disk l root tree w := by
  rintro ⟨done, path, file, rest, -, -, rfl, without, -, -⟩
  have whole : Text.isEncodable file.text = true := bytes (path, file) (by simp)
  rw [whole] at without
  cases without

theorem placed_of_builds {done : Tree} {fs fs' : FileStore}
    (builds : Builds root (Table.names done) fs fs') (settled : AllSettled root done fs') :
    Placed root done fs fs' := by
  refine ⟨fun e he => ?_, fun at_ elsewhere => builds.content?_eq fun path hp => ?_⟩
  · obtain ⟨content, bytes, written⟩ := settled e he
    have there := written.there
    rw [builds.retains.cwd] at there
    exact ⟨content, bytes, by simp [contentAt, there, Node.content?]⟩
  · obtain ⟨e, he, rfl⟩ := List.mem_map.mp hp
    exact elsewhere e he

/-- Writing a tree ends as writing its files does. -/
theorem exists_outcome_writeFilesOn (disk : Disk) (l : Language) (root : FilePath) (tree : Tree)
    (w : Workspace) : ∃ u,
      (writeFilesOn disk l root tree).outcome w =
          (((writeTreeOn disk l root tree).outcome w).1, u) ∧
        ((writeTreeOn disk l root tree).outcome w).2.store = u.store := by
  rw [writeTreeOn, Run.outcome_bind]
  rcases (writeFilesOn disk l root tree).outcome w with ⟨_ | _, u⟩ <;> exact ⟨u, rfl, rfl⟩

/-- A tree that comes to a file without bytes fails there, without a report. -/
theorem misuse_of_strands (strands : Strands disk l root tree w) :
    ((writeTreeOn disk l root tree).outcome w).1 = .error (.misuse .unencodable) := by
  obtain ⟨done, path, file, rest, paths, between, rfl, without, before, opens⟩ := strands
  obtain ⟨subject, store, stops⟩ := writeOn_none_of_opens opens
  have here : ((writeFilesOn disk l root ((path, file) :: rest)).outcome between).1 =
      .error (.misuse .unencodable) := by
    rw [outcome_writeFilesOn_cons, Text.encode?_eq_none_iff.mpr without, stops]
    rfl
  obtain ⟨u, ended, -⟩ := exists_outcome_writeFilesOn disk l root (done ++ (path, file) :: rest) w
  rw [outcome_writeFilesOn_append before, here] at ended
  exact (congrArg Prod.fst ended).symm

/-- Below a root that no store can have no file of a tree is written on any disk. -/
theorem misuse_of_isBarred (inner : IsInner tree) (nonempty : tree ≠ [])
    (barred : root.isBarred = true) :
    ((writeTreeOn disk l root tree).outcome w).1 = .error (.misuse root.barring) := by
  obtain ⟨⟨path, file⟩, rest, rfl⟩ := List.exists_cons_of_ne_nil nonempty
  have stays := inner path List.mem_cons_self
  have parent : (root.child path).parent.isBarred = true := by
    rw [FilePath.child, FilePath.isBarred_parent_join stays, barred]
  obtain ⟨u, ended, -⟩ := exists_outcome_writeFilesOn disk l root ((path, file) :: rest) w
  rw [outcome_writeFilesOn_cons, writeOn_of_isBarred _ parent] at ended
  rw [← congrArg Prod.fst ended, FilePath.child, FilePath.barring_parent_join stays]
  rfl

section Tree

variable (lasting : ∀ path ∈ Table.names tree, Lasting path) (once : (Table.names tree).Nodup)
include lasting once

/-- Below a root that some store can have a tree is written without harm, unless writing it
comes to a file without bytes. -/
theorem writesSafely_of_clean (sound : w.store.IsSound) (clean : root.isBarred = false)
    (bytes : ¬ Strands disk l root tree w) : WritesSafely disk l root tree w := by
  refine ⟨fun paths w' done => ?_, fun f w' failed => ?_⟩
  · obtain ⟨u, ended, stored⟩ := exists_outcome_writeFilesOn disk l root tree w
    rw [done] at ended stored
    obtain ⟨all, rest, rfl, builds, settled, rfl, rfl⟩ :=
      writeFilesOn_spec sound lasting once ended
    rw [List.append_nil] at lasting ⊢
    rw [← stored] at builds settled
    refine ⟨rfl, placed_of_builds builds settled, fun v same => ?_⟩
    have sound' : v.store.IsSound := by
      rw [same]
      exact builds.sound
    have settled' : AllSettled root all v.store := by
      rw [same]
      exact settled
    refine ⟨?_, fun disk' => ?_⟩
    · obtain ⟨u', files, -⟩ := exists_outcome_writeFilesOn .willing l root all v
      rw [← writeTreeOn_willing]
      exact (writeFilesOn_of_settled sound' lasting settled' files).2 rfl
    · obtain ⟨u', files, stored'⟩ := exists_outcome_writeFilesOn disk' l root all v
      rw [stored']
      exact (writeFilesOn_of_settled sound' lasting settled' files).1
  · obtain ⟨u, ended, stored⟩ := exists_outcome_writeFilesOn disk l root tree w
    rw [failed] at ended stored
    obtain ⟨done, rest, rfl, builds, settled, path, file, more, fault, paths, between, store, rfl,
      rfl, before, stops⟩ := writeFilesOn_spec sound lasting once ended
    rw [← stored] at builds settled
    have stays : Lasting path := lasting path (by simp)
    have parent : (root.child path).parent.isBarred = false := by
      rw [child, isBarred_parent_join stays.inner, clean]
    refine ⟨done, path, file, more, fault.text, rfl, placed_of_builds builds settled, ?_, ?_⟩
    · refine builds.content?_eq fun other ho same => ?_
      have others : Lasting other := lasting other (by
        rw [Table.names_append]
        exact List.mem_append_left _ ho)
      obtain rfl := place_child_injective stays others sound.plain same
      rw [Table.names_append] at once
      exact List.disjoint_of_nodup_append once ho List.mem_cons_self
    · cases fault with
      | refused reason => rfl
      | access fault =>
          rcases misuse?_of_writeOn parent stops with store | ⟨without, opens⟩
          · simp [writeFailureOn, writeFailure, store, WriteFault.text]
          · exact absurd ⟨done, path, file, more, paths, between, rfl,
              Text.encode?_eq_none_iff.mp without, before, opens⟩ bytes

end Tree

/-- Writing a rendered tree. Writing is the writing on a disk that refuses nothing; and
whatever step of whatever file a disk refuses, a tree is written without harm from a sound
store exactly if some store can have its root and writing it comes to no file without bytes. -/
theorem writesSafely_iff {e : Emitter} {definitions : List Definition} {actions : List Action}
    (rendered : render e definitions actions = .ok tree) (root : FilePath) (disk : Disk)
    (sound : w.store.IsSound) :
    writeTreeOn .willing e.language root tree = writeTree e.language root tree ∧
      (WritesSafely disk e.language root tree w ↔
        root.isBarred = false ∧ ¬ Strands disk e.language root tree w) := by
  obtain ⟨lasting, once⟩ := lasting_of_render rendered
  obtain ⟨nonempty, inner⟩ := isInner_of_render rendered
  have unsafely {cause : Misuse} (fails : ((writeTreeOn disk e.language root tree).outcome w).1 =
      .error (.misuse cause)) : ¬ WritesSafely disk e.language root tree w := by
    intro safely
    obtain ⟨done, path, file, rest, cause, -, -, -, named⟩ :=
      safely.interrupted _ _ (Prod.ext fails rfl)
    cases named
  refine ⟨writeTreeOn_willing _ _ _, fun safely => ⟨?_, fun strands => ?_⟩, fun ⟨clean, bytes⟩ =>
    writesSafely_of_clean lasting once sound clean bytes⟩
  · by_contra barred
    exact unsafely (misuse_of_isBarred inner nonempty (by simpa using barred)) safely
  · exact unsafely (misuse_of_strands strands) safely

/-- A workspace with an empty store. -/
def emptySpace : Workspace := ⟨⟨[], []⟩, []⟩

theorem isSound_emptySpace : emptySpace.store.IsSound :=
  ⟨isTree_of_nodes (by simp [emptySpace]), rfl, by simp [emptySpace]⟩

/-- The files of a package without types have bytes. -/
theorem exists_bare_package : ∃ tree,
    render ⟨⟨.javascript, .str "", .str "bank", .null⟩, .str "common", .str "", .str "1", true⟩
      [] [] = .ok tree ∧ IsEncodable tree := by
  have bytes : (render ⟨⟨.javascript, .str "", .str "bank", .null⟩, .str "common", .str "",
      .str "1", true⟩ [] []).toOption.map
        (·.all fun e => (Text.encode? e.2.text).isSome) = some true := by
    decide +kernel
  cases rendered : render ⟨⟨.javascript, .str "", .str "bank", .null⟩, .str "common", .str "",
      .str "1", true⟩ [] [] with
  | error f =>
      rw [rendered] at bytes
      cases bytes
  | ok tree =>
      rw [rendered] at bytes
      refine ⟨tree, rfl, fun e he => ?_⟩
      have whole := List.all_eq_true.mp (Option.some.inj bytes) e he
      by_contra without
      rw [Text.encode?_eq_none_iff.mpr (Bool.eq_false_iff.mpr without)] at whole
      cases whole

/-- A package without types is written safely next to the folder it starts from, whatever is
refused on the way. -/
theorem neighbour_written_safely : emptySpace.store.IsSound ∧ ∃ tree,
    render ⟨⟨.javascript, .str "", .str "bank", .null⟩, .str "common", .str "", .str "1", true⟩
      [] [] = .ok tree ∧
    ∀ disk, WritesSafely disk .javascript ⟨"", ["..", "build"]⟩ tree emptySpace := by
  obtain ⟨tree, rendered, bytes⟩ := exists_bare_package
  refine ⟨isSound_emptySpace, tree, rendered, fun disk => ?_⟩
  exact (writesSafely_iff rendered _ disk isSound_emptySpace).2.mpr
    ⟨by decide, not_strands_of_isEncodable bytes⟩

/-- Below a root that holds the null character writing fails without an emission failure. -/
theorem null_root_not_reported : ∃ tree,
    render ⟨⟨.javascript, .str "", .str "bank", .null⟩, .str "common", .str "", .str "1", true⟩
      [] [] = .ok tree ∧
    (writeTree .javascript ⟨"", ["a\x00b"]⟩ tree).outcome emptySpace =
      (.error (.misuse .badValue), emptySpace) ∧
    ¬ WritesSafely .willing .javascript ⟨"", ["a\x00b"]⟩ tree emptySpace := by
  obtain ⟨tree, rendered, -⟩ := exists_bare_package
  obtain ⟨nonempty, inner⟩ := isInner_of_render rendered
  have barred : FilePath.isBarred ⟨"", ["a\x00b"]⟩ = true := by decide
  have fails : (writeTree .javascript ⟨"", ["a\x00b"]⟩ tree).outcome emptySpace =
      (.error (.misuse .badValue), emptySpace) := by
    rw [writeTree, Run.outcome_bind, writeFiles_of_isBarred inner nonempty barred]
    rfl
  refine ⟨tree, rendered, fails, fun safely => ?_⟩
  rw [← writeTreeOn_willing] at fails
  obtain ⟨done, path, file, rest, cause, -, -, -, named⟩ := safely.interrupted _ _ fails
  cases named

end Generation

end ClientForge
