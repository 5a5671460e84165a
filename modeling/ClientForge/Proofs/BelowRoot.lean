import ClientForge.Proofs.AtomicWrite
import ClientForge.Proofs.Containment
import ClientForge.Proofs.Numeral
import ClientForge.Proofs.PathText

/-!
# Files below the root

Names of types and clients come from a specification and can hold anything: double dots, slashes,
roots of other systems, control characters. What reaches a path is a word of letters and digits,
so that every file of a tree has one of the fixed support paths or lies in one of two fixed
folders of sources. Such a path leads strictly down from the root that the tree is written below,
and so does every temporary neighbour of its file; no file elsewhere is made or replaced, whatever
step a disk refuses.
-/

namespace ClientForge

open FileStore (temporaryName)

namespace FilePath

variable {cwd : Location} {parts : List String} {path part : String} {n : Nat}

/-! ## Paths that lead down -/

/-- Without double dots every part leads one level down. -/
theorem depthFrom_of_notMem (down : ".." ∉ parts) (depth : Nat) :
    depthFrom depth parts = some (depth + parts.length) := by
  induction parts generalizing depth with
  | nil => rfl
  | cons part rest ih =>
      rw [List.mem_cons, not_or] at down
      unfold depthFrom
      rw [if_neg (by simpa using Ne.symm down.1), ih down.2, List.length_cons, Nat.add_assoc,
        Nat.add_comm 1]

theorem Lasting.descends (lasting : Lasting path) : (ofText path).Descends where
  relative := lasting.inner.relative
  below := by
    rw [depthFrom_of_notMem lasting.dots_notMem, Option.getD_some, Nat.zero_add]
    exact List.length_pos_of_ne_nil lasting.inner.named

/-- A text without slashes is a path of one part, unless that is dropped. -/
theorem ofText_of_notMem (noSlash : '/' ∉ part.toList) (kept : isPart part = true) :
    ofText part = ⟨"", [part]⟩ := by
  have relative : rootOf part.toList = "" := by
    unfold rootOf
    split
    next same => simp [same] at noSlash
    next same => simp [same] at noSlash
    next same => simp [same] at noSlash
    next => rfl
  rw [ofText, relative, Text.split_of_notMem noSlash, List.filter_cons_of_pos kept, List.filter_nil]

/-! ## Temporary neighbours -/

theorem slash_notMem_padded (width n : Nat) : '/' ∉ (Text.padded width n).toList := by
  rw [Text.padded, String.toList_ofList, List.mem_append, not_or]
  refine ⟨fun h => ?_, fun h => ?_⟩
  · exact absurd (List.eq_of_mem_replicate h) (by decide)
  · exact absurd (Text.isAsciiDigit_of_mem_toString h) (by decide)

/-- A temporary name is one part of a path if the name that it is made from has no slash. -/
theorem ofText_temporaryName (noSlash : '/' ∉ part.toList) (n : Nat) :
    ofText (temporaryName part n) = ⟨"", [temporaryName part n]⟩ := by
  have letters : (temporaryName part n).toList =
      '.' :: (part.toList ++ '.' :: (Text.padded 8 n).toList ++ ['.', 't', 'm', 'p']) := by
    simp [temporaryName]
  refine ofText_of_notMem ?_ ?_
  · rw [letters]
    simp [noSlash, slash_notMem_padded]
  · have long : 2 ≤ (temporaryName part n).toList.length := by
      rw [letters]
      simp only [List.length_append, List.length_cons]
      omega
    have other {s : String} (short : s.toList.length < 2) : temporaryName part n ≠ s := by
      rintro rfl
      exact absurd long (Nat.not_le.mpr short)
    simp [isPart, other (s := "") (by decide), other (s := ".") (by decide)]

section Child

variable {root : FilePath} (lasting : Lasting path) (plain : ".." ∉ cwd)
include lasting plain

/-- A file lies strictly below the root of its tree. -/
theorem below_child : Below (root.absolute cwd) ((root.child path).absolute cwd) :=
  below_of_descends lasting.descends plain root

/-- So does every temporary neighbour of it. -/
theorem below_neighbour (n : Nat) : Below (root.absolute cwd)
    (((root.child path).parent.absolute cwd).child (temporaryName (root.child path).name n)) := by
  obtain ⟨last, ends, -⟩ := FileStore.exists_last lasting
  have name : (root.child path).name = last := by
    rw [FilePath.name, FileStore.parts_child lasting, List.getLast?_append, ends, Option.some_or,
      Option.getD_some]
  have noSlash : '/' ∉ last.toList := by
    obtain ⟨piece, cut, rfl⟩ := List.mem_map.mp (List.mem_of_getLast? ends)
    rw [String.toList_ofList]
    exact Text.notMem_of_mem_splitAt cut
  have folder : (root.child path).parent =
      ⟨root.root, root.parts ++ (ofText path).parts.dropLast⟩ :=
    parent_join_of_inner lasting.inner
  have down : ".." ∉ (ofText path).parts.dropLast :=
    fun dots => lasting.dots_notMem (List.dropLast_subset _ dots)
  have place : ((root.child path).parent.absolute cwd).parts =
      (root.absolute cwd).parts ++ (ofText path).parts.dropLast := by
    rw [folder]
    exact place_append plain down
  have neighbour : ((root.child path).parent.absolute cwd).child (temporaryName last n) =
      ⟨((root.child path).parent.absolute cwd).root,
        (root.absolute cwd).parts ++ ((ofText path).parts.dropLast ++ [temporaryName last n])⟩ := by
    rw [child, ofText_temporaryName noSlash, join, if_neg (by simp [isAbsolute]), place,
      List.append_assoc]
  rw [name, neighbour]
  refine ⟨?_, List.prefix_append _ _, by simp⟩
  rw [root_absolute, root_absolute, folder]
  rfl

end Child

end FilePath

namespace Generation

open ClientForge.Emission FilePath FileStore

variable {e : Emitter} {definitions : List Definition} {actions : List Action} {tree : Tree}

/-- The path of a source file: its name, a word, in one of the two folders of a language. -/
def IsSourcePath (l : Language) (path : String) : Prop :=
  ∃ word, Naming.IsWord word ∧ (path = Naming.sourcePath l (Naming.entityFolder l) word ∨
    path = Naming.sourcePath l (Naming.serviceFolder l) word)

/-- Every rendered file is a support file, or a source file that is named by a word. -/
theorem isSourcePath_of_render (rendered : render e definitions actions = .ok tree) :
    ∀ path ∈ Table.names tree, path ∈ supportPaths e.language ∨ IsSourcePath e.language path := by
  obtain ⟨-, entities, clients, support, rfl, parts⟩ := render_eq_ok.mp rendered
  intro path hp
  obtain ⟨entry, he, rfl⟩ := List.mem_map.mp hp
  rcases parts.cases_of_mem he with ⟨d, -, path, -⟩ | ⟨group, -, -, path, -⟩ | member
  · exact .inr ⟨_, Naming.isWord_className d.name, .inl path⟩
  · exact .inr ⟨_, Naming.isWord_clientClass group.1, .inr path⟩
  · left
    rw [← names_supportFiles parts.others]
    exact Table.mem_names_of_mem member

/-- Writing a tree changes the content of files below its root only. -/
theorem inside_of_contentAt_ne {l : Language} {root : FilePath} {w : Workspace}
    (lasting : ∀ path ∈ Table.names tree, Lasting path) (once : (Table.names tree).Nodup)
    (sound : w.store.IsSound) (disk : Disk) (at_ : Location)
    (changed : contentAt ((writeTreeOn disk l root tree).outcome w).2.store at_ ≠
      contentAt w.store at_) :
    root.place w.store.cwd <+: at_ ∧ at_ ≠ root.place w.store.cwd := by
  obtain ⟨u, ended, stored⟩ := exists_outcome_writeFilesOn disk l root tree w
  -- The files that were written before the disk refused a step are the only ones that differ.
  obtain ⟨done, rest, rfl, builds, -, -⟩ := writeFilesOn_spec sound lasting once ended
  rw [stored] at changed
  by_contra outside
  refine changed (builds.content?_eq fun path hp same => outside ?_)
  have listed : path ∈ Table.names (done ++ rest) := by
    rw [Table.names_append]
    exact List.mem_append_left _ hp
  have below : Below (root.absolute w.store.cwd) ((root.child path).absolute w.store.cwd) :=
    below_child (lasting path listed) sound.plain
  rw [same]
  exact ⟨below.inside, below.strict⟩

/-- Whatever its types and clients are called, a tree has support files and source files that are
named by words; with their temporary neighbours they lie strictly below any root, and writing the
tree makes or replaces no other file, on any disk and whether or not it ends well. -/
theorem render_stays_below_root (rendered : render e definitions actions = .ok tree) :
    (∀ path ∈ Table.names tree, path ∈ supportPaths e.language ∨ IsSourcePath e.language path) ∧
    (∀ path ∈ Table.names tree, ∀ (root : FilePath) (cwd : Location), ".." ∉ cwd →
      Below (root.absolute cwd) ((root.child path).absolute cwd) ∧
      ∀ n, Below (root.absolute cwd)
        (((root.child path).parent.absolute cwd).child
          (temporaryName (root.child path).name n))) ∧
    ∀ root : FilePath, writeTreeOn .willing e.language root tree = writeTree e.language root tree ∧
      ∀ (disk : Disk) (w : Workspace), w.store.IsSound → ∀ at_,
        contentAt ((writeTreeOn disk e.language root tree).outcome w).2.store at_ ≠
          contentAt w.store at_ →
        root.place w.store.cwd <+: at_ ∧ at_ ≠ root.place w.store.cwd := by
  obtain ⟨lasting, once⟩ := lasting_of_render rendered
  refine ⟨isSourcePath_of_render rendered, fun path hp root cwd plain => ?_, fun root => ?_⟩
  · exact ⟨below_child (lasting path hp) plain, below_neighbour (lasting path hp) plain⟩
  · exact ⟨writeTreeOn_willing _ _ _, fun disk w sound at_ =>
      inside_of_contentAt_ne lasting once sound disk at_⟩

/-- A type and a client that are called like ways out of the root. -/
theorem ways_out_stay_below_root : ∃ tree,
    render ⟨⟨.javascript, .str "", .str "bank", .null⟩, .str "lib", .str "", .str "1", true⟩
      [{ name := "/../../etc/passwd" }] [{ path := "/x", client := "..\x5c..\x00/boot" }] =
        .ok tree ∧
    Table.names tree = ["src/entity/EtcPasswd.js", "src/service/BootClient.js",
      "src/service/DateFactory.js", "src/index.js", "package.json"] ∧
    ∀ path ∈ Table.names tree, ∀ cwd, ".." ∉ cwd →
      Below ((ofText "../build").absolute cwd) (((ofText "../build").child path).absolute cwd) := by
  have rendered : render
      ⟨⟨.javascript, .str "", .str "bank", .null⟩, .str "lib", .str "", .str "1", true⟩
      [{ name := "/../../etc/passwd" }] [{ path := "/x", client := "..\x5c..\x00/boot" }] =
        .ok _ := rfl
  refine ⟨_, rendered, by decide +kernel, fun path hp cwd plain => ?_⟩
  exact ((render_stays_below_root rendered).2.1 path hp _ cwd plain).1

end Generation

end ClientForge
