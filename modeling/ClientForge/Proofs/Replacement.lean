import ClientForge.Proofs.Containment
import ClientForge.Proofs.Folders

/-!
# What a successful run leaves

Clearing a target leaves nothing at it or below it. The files of a tree are then written
one after another: each is added to those that are there, and only the way to the target
is made outside. So a run that succeeds leaves exactly the files of its tree below the
target. A second run finds the way made and clears what the first one wrote. From there
on the two write into stores that are alike, and so end alike.
-/

namespace ClientForge

open FilePath

namespace FileStore

variable {fs fs' gs : FileStore} {p t : FilePath} {at_ other place base : Location}
  {node : Node} {content : ByteArray} {parts : List String}

/-- It is enough to look at the entries of a store. -/
theorem isTree_of_nodes
    (held : ∀ e ∈ fs.nodes, (fs.node? e.1.dropLast).any Node.isFolder = true) : fs.IsTree := by
  intro at_ node strict there
  rw [node?_of_ne_nil strict, Option.map_eq_some_iff] at there
  obtain ⟨e, found, -⟩ := there
  obtain rfl : e.1 = at_ := by simpa using List.find?_some found
  have holder := held e (List.mem_of_find?_eq_some found)
  rcases above : fs.node? e.1.dropLast with _ | ⟨_ | _⟩
  · simp [above] at holder
  · simp [above, Node.isFolder] at holder
  · rfl

/-- A store whose folder for relative paths is there, everything else lying in a folder,
and whose locations hold no way back. -/
structure IsSound (fs : FileStore) : Prop where
  tree : fs.IsTree
  cwd : fs.node? fs.cwd = some .folder
  plain : ".." ∉ fs.cwd

namespace Gains

variable (gains : Gains place content fs fs')
include gains

theorem isTree (tree : fs.IsTree) (named : place ≠ []) (free : fs.node? place ≠ some .folder) :
    fs'.IsTree := by
  intro at_ node strict there
  rw [gains.node?_eq] at there ⊢
  have shorter : place.dropLast ≠ place := by
    intro same
    have outside := not_prefix_dropLast named
    rw [same] at outside
    exact outside (List.prefix_refl _)
  split at there
  next same =>
    subst same
    rw [if_neg shorter, if_pos (List.prefix_refl _)]
  next =>
    split at there
    next above =>
      have further := (List.dropLast_prefix at_).trans above
      have other : at_.dropLast ≠ place := by
        rintro same
        exact not_prefix_dropLast named (same ▸ further)
      rw [if_neg other, if_pos further]
    next =>
      have folder := tree at_ node strict there
      have other : at_.dropLast ≠ place := by
        rintro same
        exact free (same ▸ folder)
      rw [if_neg other, folder, ite_self]

theorem node?_start (start : fs.node? (t.start fs.cwd) = some .folder)
    (free : fs.node? place ≠ some .folder) : fs'.node? (t.start fs'.cwd) = some .folder := by
  have other : t.start fs.cwd ≠ place := by
    rintro rfl
    exact free start
  rw [gains.cwd, gains.node?_eq, if_neg other, start, ite_self]

end Gains

/-- Whether two stores are alike, but that the way to a location may be made in the second
one where it is missing in the first one. -/
structure Agrees (base : Location) (fs gs : FileStore) : Prop where
  cwd : gs.cwd = fs.cwd
  node? : ∀ at_, gs.node? at_ = fs.node? at_ ∨
    (at_ <+: base ∧ gs.node? at_ = some .folder ∧ fs.node? at_ = none)

/-- Whether two stores hold the same. -/
structure Same (fs gs : FileStore) : Prop where
  cwd : gs.cwd = fs.cwd
  node? : ∀ at_, gs.node? at_ = fs.node? at_

namespace Same

variable (same : Same fs gs)
include same

theorem agrees (base : Location) : Agrees base fs gs :=
  ⟨same.cwd, fun at_ => .inl (same.node? at_)⟩

theorem isTree (tree : fs.IsTree) : gs.IsTree := by
  intro at_ node strict there
  rw [same.node?] at there ⊢
  exact tree at_ node strict there

end Same

namespace Agrees

variable (agrees : Agrees base fs gs)
include agrees

theorem spot_eq (p : FilePath) : gs.spot p = fs.spot p := by
  rw [spot, spot, agrees.cwd]

/-- Nothing is different that is not on the way. -/
theorem node?_of_not_prefix (outside : ¬ at_ <+: base) : gs.node? at_ = fs.node? at_ :=
  (agrees.node? at_).resolve_right fun h => outside h.1

theorem node?_start (start : fs.node? (t.start fs.cwd) = some .folder) :
    gs.node? (t.start gs.cwd) = some .folder := by
  rw [agrees.cwd]
  rcases agrees.node? (t.start fs.cwd) with same | ⟨-, folder, -⟩
  · rw [same, start]
  · exact folder

theorem writable (writable : Writable fs p) (inside : ¬ fs.spot p <+: base) : Writable gs p := by
  refine ⟨⟨writable.way.searchable, fun other above => ?_⟩, writable.temporary, ?_, ?_⟩
  · rw [agrees.spot_eq] at above
    rcases agrees.node? other with same | ⟨-, folder, -⟩
    · rw [same]
      exact writable.way.way other above
    · exact .inr folder
  · rw [agrees.cwd]
    exact writable.neighbour
  · rw [agrees.spot_eq, agrees.node?_of_not_prefix inside]
    exact writable.place

/-- Once a file is written below, nothing is different. -/
theorem same_of_gains {fs' gs' : FileStore} (first : Gains place content fs fs')
    (second : Gains place content gs gs') (below : base <+: place.dropLast) : Same fs' gs' := by
  refine ⟨by rw [first.cwd, second.cwd, agrees.cwd], fun at_ => ?_⟩
  rw [first.node?_eq, second.node?_eq]
  split
  next => rfl
  next =>
    split
    next => rfl
    next outside => exact agrees.node?_of_not_prefix fun above => outside (above.trans below)

end Agrees

/-- Whether a store differs from another one outside of a location only by the way there. -/
structure Approaches (base : Location) (fs fs' : FileStore) : Prop where
  cwd : fs'.cwd = fs.cwd
  node? : ∀ at_, ¬ base <+: at_ → fs'.node? at_ = fs.node? at_ ∨
    (at_ <+: base ∧ fs'.node? at_ = some .folder ∧ fs.node? at_ = none)

namespace Approaches

theorem refl (base : Location) (fs : FileStore) : Approaches base fs fs :=
  ⟨rfl, fun _ _ => .inl rfl⟩

theorem trans {fs'' : FileStore} (first : Approaches base fs fs')
    (second : Approaches base fs' fs'') : Approaches base fs fs'' := by
  refine ⟨second.cwd.trans first.cwd, fun at_ outside => ?_⟩
  rcases second.node? at_ outside with same | ⟨above, folder, none⟩
  · rw [same]
    exact first.node? at_ outside
  · rcases first.node? at_ outside with same | ⟨-, made, -⟩
    · exact .inr ⟨above, folder, same ▸ none⟩
    · rw [made] at none
      cases none

/-- Every file outside is as before. -/
theorem content?_eq (approaches : Approaches base fs fs') (outside : ¬ base <+: at_) :
    (fs'.node? at_).bind Node.content? = (fs.node? at_).bind Node.content? := by
  rcases approaches.node? at_ outside with same | ⟨-, folder, none⟩
  · rw [same]
  · simp [folder, none, Node.content?]

end Approaches

theorem isLasting_temporaryName (name : String) (n : Nat) :
    isLasting (temporaryName name n) = false := by
  have ending : Text.endsWith (temporaryName name n) ".tmp" = true := by
    rw [Text.endsWith, List.isSuffixOf_iff_suffix, temporaryName, String.toList_append]
    exact List.suffix_append _ _
  simp [isLasting, ending]

section Child

variable {path : String} (lasting : Lasting path)
include lasting

theorem parts_child : (t.child path).parts = t.parts ++ Text.split '/' path := by
  rw [child, join_of_inner lasting.inner, lasting.parts_eq]

theorem dots_notMem_child (down : ".." ∉ t.parts) : ".." ∉ (t.child path).parts := by
  rw [parts_child lasting, ← lasting.parts_eq, List.mem_append, not_or]
  exact ⟨down, lasting.dots_notMem⟩

theorem parts_child_ne_nil : (t.child path).parts ≠ [] := by
  rw [parts_child lasting, ← lasting.parts_eq]
  exact List.append_ne_nil_of_right_ne_nil _ lasting.inner.named

theorem start_child (cwd : Location) : (t.child path).start cwd = t.start cwd := by
  rw [child, join_of_inner lasting.inner]
  rfl

theorem spot_child (fs : FileStore) :
    fs.spot (t.child path) = fs.spot t ++ Text.split '/' path := by
  rw [spot, start_child lasting, parts_child lasting, ← List.append_assoc, spot]

theorem dropLast_spot_child (fs : FileStore) :
    (fs.spot (t.child path)).dropLast = fs.spot (t.child path).parent := by
  rw [spot_eq_parent (parts_child_ne_nil lasting), List.dropLast_concat]

theorem spot_parent_child (fs : FileStore) :
    fs.spot (t.child path).parent = fs.spot t ++ (Text.split '/' path).dropLast := by
  have same : (t.child path).parent.start fs.cwd = t.start fs.cwd := by
    rw [child, parent_join_of_inner lasting.inner]
    rfl
  rw [spot, same, parent, parts_child lasting, ← lasting.parts_eq,
    List.dropLast_append_of_ne_nil lasting.inner.named, ← List.append_assoc, spot]

end Child

/-- Whether a store is one in which some files have been written below a target: they are
all the files at or below it, and what is there has names that stay. -/
structure Holds (t : FilePath) (base : Location) (files : List (Location × ByteArray))
    (fs : FileStore) : Prop where
  tree : fs.IsTree
  start : fs.node? (t.start fs.cwd) = some .folder
  spot_eq : fs.spot t = base
  files_iff : ∀ at_ content, base <+: at_ →
    (fs.node? at_ = some (.file content) ↔ (at_, content) ∈ files)
  lasting : ∀ rest node, fs.node? (base ++ rest) = some node →
    ∀ part ∈ rest, isLasting part = true

variable {files : List (Location × ByteArray)} {path : String}

namespace Holds

theorem spot_child_eq (holds : Holds t base files fs) (lasting : Lasting path) :
    fs.spot (t.child path) = base ++ Text.split '/' path := by
  rw [spot_child lasting, holds.spot_eq]

theorem prefix_spot_parent (holds : Holds t base files fs) (lasting : Lasting path) :
    base <+: fs.spot (t.child path).parent := by
  rw [spot_parent_child lasting, holds.spot_eq]
  exact List.prefix_append _ _

/-- No temporary neighbour is in the way. -/
theorem free (holds : Holds t base files fs) (lasting : Lasting path) :
    fs.node? (fs.spot (t.child path).parent ++ [temporaryName (t.child path).name 0]) = none := by
  rw [spot_parent_child lasting, holds.spot_eq, List.append_assoc]
  by_contra there
  obtain ⟨node, there⟩ := Option.ne_none_iff_exists'.mp there
  have stays := holds.lasting _ node there (temporaryName (t.child path).name 0) (by simp)
  rw [isLasting_temporaryName] at stays
  cases stays

/-- A file that is written at a new place is one more file. -/
theorem of_gains (holds : Holds t base files fs) (lasting : Lasting path)
    (writable : Writable fs (t.child path)) (fresh : base ++ Text.split '/' path ∉ files.map (·.1))
    (gains : Gains (fs.spot (t.child path)) content fs fs') :
    Holds t base (files ++ [(base ++ Text.split '/' path, content)]) fs' := by
  have place := holds.spot_child_eq lasting
  have named : fs.spot (t.child path) ≠ [] := by
    rw [spot_eq_parent (parts_child_ne_nil lasting)]
    simp
  have folder := dropLast_spot_child (t := t) lasting fs
  refine ⟨gains.isTree holds.tree named writable.place,
    gains.node?_start holds.start writable.place, ?_, ?_, ?_⟩
  · rw [spot, gains.cwd, ← holds.spot_eq, spot]
  · intro at_ c inside
    rw [gains.node?_eq, List.mem_append, List.mem_singleton, ← holds.files_iff at_ c inside]
    have old : (at_, c) ∈ files → at_ ≠ fs.spot (t.child path) := by
      rintro member rfl
      exact fresh (place ▸ List.mem_map_of_mem member)
    rw [← holds.files_iff at_ c inside] at old
    split
    next same =>
      subst same
      constructor
      · rintro ⟨⟩
        exact .inr (by rw [place])
      · rintro (there | same)
        · exact absurd rfl (old there)
        · rw [(Prod.mk.inj same).2]
    next other =>
      have elsewhere : (at_, c) ≠ (base ++ Text.split '/' path, content) := by
        intro same
        exact other (place ▸ (Prod.mk.inj same).1)
      rw [or_iff_left elsewhere]
      split
      next above =>
        constructor
        · intro there
          cases there
        · intro there
          rcases writable.way.way at_ (folder ▸ above) with none | made
          · rw [none] at there
            cases there
          · rw [made] at there
            cases there
      next => rfl
  · intro rest node there
    rw [gains.node?_eq, place] at there
    split at there
    next same =>
      rw [List.append_cancel_left same]
      exact lasting.parts
    next =>
      split at there
      next above =>
        rw [← place, folder, spot_parent_child lasting, holds.spot_eq,
          List.prefix_append_right_inj] at above
        exact fun part hp => lasting.parts part (List.dropLast_subset _ (above.subset hp))
      next => exact holds.lasting rest node there

theorem approaches_of_gains (holds : Holds t base files fs) (lasting : Lasting path)
    (writable : Writable fs (t.child path))
    (gains : Gains (fs.spot (t.child path)) content fs fs') : Approaches base fs fs' := by
  refine ⟨gains.cwd, fun at_ outside => ?_⟩
  have place := holds.spot_child_eq lasting
  have inside := holds.prefix_spot_parent lasting
  have other : at_ ≠ fs.spot (t.child path) := by
    rintro rfl
    exact outside (place ▸ List.prefix_append _ _)
  rw [gains.node?_eq, if_neg other, dropLast_spot_child lasting]
  split
  next above =>
    have way : at_ <+: base := by
      rcases List.prefix_or_prefix_of_prefix above inside with way | below
      · exact way
      · exact absurd below outside
    rcases writable.way.way at_ above with none | made
    · exact .inr ⟨way, rfl, none⟩
    · exact .inl made.symm
  next => exact .inl rfl

/-- Writing a file of a tree, and writing it again into a store that agrees. -/
theorem write (holds : Holds t base files fs) (down : ".." ∉ t.parts) (lasting : Lasting path)
    (fresh : base ++ Text.split '/' path ∉ files.map (·.1))
    (written : (fs.write (t.child path) content).1 = .ok ()) :
    ∃ fs', fs.write (t.child path) content = (.ok (), fs') ∧
      Holds t base (files ++ [(base ++ Text.split '/' path, content)]) fs' ∧
      Approaches base fs fs' ∧ Searchable t ∧
      ∀ gs, gs.IsTree → Agrees base fs gs →
        ∃ gs', gs.write (t.child path) content = (.ok (), gs') ∧ Same fs' gs' := by
  have named := parts_child_ne_nil (t := t) lasting
  have down' := dots_notMem_child lasting down
  have start : fs.node? ((t.child path).start fs.cwd) = some .folder := by
    rw [start_child lasting]
    exact holds.start
  have free := holds.free lasting
  have writable := (write_eq_ok_iff holds.tree named down' start free).mp written
  obtain ⟨fs', done, gains⟩ :=
    gains_of_writable holds.tree named down' start free writable content
  have outer : t.parts <+: (t.child path).parent.parts := by
    rw [child, parent_join_of_inner lasting.inner]
    exact List.prefix_append _ _
  have root : t.root = (t.child path).parent.root := by
    rw [child, parent_join_of_inner lasting.inner]
  refine ⟨fs', done, holds.of_gains lasting writable fresh gains,
    holds.approaches_of_gains lasting writable gains,
    writable.way.searchable.of_prefix root outer, fun gs tree agrees => ?_⟩
  have inside := holds.prefix_spot_parent lasting
  have below (name : String) : ¬ fs.spot (t.child path).parent ++ [name] <+: base := by
    intro above
    have length := (above.trans inside).length_le
    rw [List.length_append, List.length_singleton] at length
    omega
  have again := agrees.writable writable (spot_eq_parent named fs ▸ below _)
  have free' : gs.node? (gs.spot (t.child path).parent ++
      [temporaryName (t.child path).name 0]) = none := by
    rw [agrees.spot_eq, agrees.node?_of_not_prefix (below _), free]
  obtain ⟨gs', done', gains'⟩ :=
    gains_of_writable tree named down' (agrees.node?_start start) free' again content
  rw [agrees.spot_eq] at gains'
  rw [← dropLast_spot_child lasting] at inside
  exact ⟨gs', done', agrees.same_of_gains gains gains' inside⟩

end Holds

/-- Whether a store is another one in which nothing is left at or below a location. -/
structure Cleared (base : Location) (fs fs' : FileStore) : Prop where
  cwd : fs'.cwd = fs.cwd
  node?_eq : ∀ at_, fs'.node? at_ = if base <+: at_ then none else fs.node? at_

namespace Cleared

theorem isTree (cleared : Cleared base fs fs') (tree : fs.IsTree) : fs'.IsTree := by
  intro at_ node strict there
  rw [cleared.node?_eq] at there ⊢
  split at there
  · cases there
  next outside =>
    rw [if_neg fun inside => outside (inside.trans (List.dropLast_prefix at_))]
    exact tree at_ node strict there

/-- Nothing has been written below a target that is cleared. -/
theorem holds (cleared : Cleared (fs.spot t) fs fs') (tree : fs.IsTree) (named : t.parts ≠ [])
    (start : fs.node? (t.start fs.cwd) = some .folder) : Holds t (fs.spot t) [] fs' := by
  refine ⟨cleared.isTree tree, ?_, ?_, ?_, ?_⟩
  · rw [cleared.cwd, cleared.node?_eq, if_neg, start]
    intro inside
    have length := inside.length_le
    have positive := List.length_pos_iff.mpr named
    rw [spot, List.length_append] at length
    omega
  · rw [spot, cleared.cwd, spot]
  · intro at_ content inside
    simp [cleared.node?_eq, inside]
  · intro rest node there
    rw [cleared.node?_eq, if_pos (List.prefix_append _ _)] at there
    cases there

theorem approaches (cleared : Cleared base fs fs') : Approaches base fs fs' := by
  refine ⟨cleared.cwd, fun at_ outside => .inl ?_⟩
  rw [cleared.node?_eq, if_neg outside]

end Cleared

/-- A way through folders leads to its end, unless one of its names is too long. -/
theorem walk_of_folders (down : ".." ∉ parts)
    (way : ∀ other, other <+: at_ ++ parts → other ≠ at_ ++ parts →
      fs.node? other = some .folder) :
    fs.walk at_ parts =
      if parts.any isTooLong then .error .nameTooLong else .ok (at_ ++ parts) := by
  induction parts generalizing at_ with
  | nil => simp [walk]
  | cons part rest ih =>
      rw [List.mem_cons, not_or] at down
      have folder := way at_ (List.prefix_append _ _) (by simp)
      have onward : ∀ other, other <+: (at_ ++ [part]) ++ rest → other ≠ (at_ ++ [part]) ++ rest →
          fs.node? other = some .folder := by simpa using way
      rw [walk, descend_of_ne (Ne.symm down.1), folder, ih down.2 onward]
      cases long : isTooLong part <;> simp [long]

/-- Where nothing is found and no name is too long, nothing is. -/
theorem node?_of_has (tree : fs.IsTree) (down : ".." ∉ p.parts) (clean : p.isBarred = false)
    (absent : fs.has p = .ok false) : fs.node? (fs.spot p) = none := by
  by_contra there
  obtain ⟨node, there⟩ := Option.ne_none_iff_exists'.mp there
  have way : ∀ other, other <+: fs.spot p → other ≠ fs.spot p → fs.node? other = some .folder :=
    fun other above strict => tree.folder_of_prefix there above strict
  have found : fs.locate p = .ok (fs.spot p) ∨ fs.locate p = .error .nameTooLong := by
    have start : (if p.isAbsolute then [] else fs.cwd) = p.start fs.cwd := rfl
    rw [locate, start, if_neg (by simp [clean])]
    split
    · exact .inr rfl
    · dsimp only
      split
      next found => exact .inl (by rw [((direct?_eq_some_iff down).mp found).2, spot])
      next =>
        rw [walk_of_folders down way, spot]
        split
        · exact .inr rfl
        · exact .inl rfl
  rcases found with found | long
  · simp [has, at?, found, Except.map, there] at absent
  · simp [has, at?, long, Except.map] at absent

/-- A folder that is found is taken away with everything in it. -/
theorem removeTree_of_folder (down : ".." ∉ p.parts) (named : p.parts ≠ [])
    (found : fs.locate p = .ok (fs.spot p)) (folder : fs.node? (fs.spot p) = some .folder) :
    ∃ fs', fs.removeTree p = (.ok (), fs') ∧ Cleared (fs.spot p) fs fs' := by
  obtain ⟨⟨searchable, last⟩, -⟩ := (locate_eq_ok_iff down).mp found
  have inside : fs.spot p ≠ [] := by simp [spot, named]
  have again : (fs.eraseBelow (fs.spot p)).locate p = .ok (fs.spot p) := by
    refine (locate_eq_ok_iff down).mpr ⟨⟨searchable, fun _ => ?_⟩, rfl⟩
    change (fs.eraseBelow (fs.spot p)).node? (fs.spot p).dropLast = _
    rw [node?_eraseBelow, if_neg fun below => not_prefix_dropLast inside below.1]
    exact last named
  have there : (fs.eraseBelow (fs.spot p)).node? (fs.spot p) = some .folder := by
    rw [node?_eraseBelow, if_neg fun below => below.2 rfl, folder]
  have name : p.parts.getLast? = some (p.parts.getLast named) := List.getLast?_eq_some_getLast named
  have forward : p.parts.getLast named ≠ ".." := fun dots => down (dots ▸ List.getLast_mem named)
  refine ⟨(fs.eraseBelow (fs.spot p)).erase (fs.spot p), ?_, rfl, fun at_ => ?_⟩
  · rw [removeTree]
    simp only [found, folder]
    rw [removeFolder]
    simp only [again, name, there]
  · rw [node?_erase inside, node?_eraseBelow]
    by_cases same : at_ = fs.spot p
    · rw [if_pos same, if_pos (same ▸ List.prefix_refl _)]
    · by_cases below : fs.spot p <+: at_
      · rw [if_neg same, if_pos ⟨below, same⟩, if_pos below]
      · rw [if_neg same, if_neg fun h => below h.1, if_neg below]

/-- A tree that is taken away is gone, and nothing else is. -/
theorem cleared_of_removeTree (down : ".." ∉ p.parts) (removed : (fs.removeTree p).1 = .ok ()) :
    p.parts ≠ [] ∧ ∃ fs', fs.removeTree p = (.ok (), fs') ∧ Cleared (fs.spot p) fs fs' := by
  have attempt := removed
  unfold removeTree at attempt
  split at attempt
  · cases attempt
  next at_ found =>
    obtain ⟨-, rfl⟩ := (locate_eq_ok_iff down).mp found
    split at attempt
    · cases attempt
    · cases attempt
    next folder =>
      have named : p.parts ≠ [] := by
        intro none
        unfold removeFolder at attempt
        rw [none] at attempt
        split at attempt <;> cases attempt
      exact ⟨named, removeTree_of_folder down named found folder⟩

end FileStore

namespace Generation

open ClientForge.Emission FileStore

variable {l : Language} {t : FilePath} {base : Location} {tree : Tree} {w w' v : Workspace}
  {files : List (Location × ByteArray)} {paths : List FilePath}

/-- The files of a tree under their locations below a target. -/
def filesOf (base : Location) (tree : Tree) : List (Location × ByteArray) :=
  tree.map fun e => (base ++ Text.split '/' e.1, Text.encode e.2.text)

theorem writeFile_eq_ok {target : FilePath} {file : SourceFile} :
    (writeFile l target file).outcome w = (.ok (), w') ↔
      Text.isEncodable file.text = true ∧ ∃ fs,
        w.store.write target (some (Text.encode file.text)) = (.ok (), fs) ∧
          w' = { w with store := fs } := by
  have step (content? : Option ByteArray) :
      ((w.store.write target content?).1.mapError (writeFailure l target),
          ({ w with store := (w.store.write target content?).2 } : Workspace)) = (.ok (), w') ↔
        ∃ fs, w.store.write target content? = (.ok (), fs) ∧ w' = { w with store := fs } := by
    rcases w.store.write target content? with ⟨f | _, fs⟩
    · simp [Except.mapError]
    · simp [Except.mapError, eq_comm]
  rw [writeFile, Run.outcome_change, step, Text.encode?_eq]
  cases Text.isEncodable file.text with
  | true => simp
  | false =>
      simp only [Bool.false_eq_true, if_false, false_and, iff_false, not_exists, not_and]
      exact fun fs wrote => absurd (congrArg Prod.fst wrote) FileStore.write_none_ne_ok

/-- Writing a tree below a target adds its files to those that are there. Writing it into
a store that agrees ends with the same. -/
theorem holds_of_writeFiles (down : ".." ∉ t.parts)
    (lasting : ∀ path ∈ Table.names tree, Lasting path) (once : (Table.names tree).Nodup)
    (holds : Holds t base files w.store)
    (fresh : ∀ path ∈ Table.names tree, base ++ Text.split '/' path ∉ files.map (·.1))
    (written : (writeFiles l t tree).outcome w = (.ok paths, w')) :
    paths = tree.map (fun e => t.child e.1) ∧
      Holds t base (files ++ filesOf base tree) w'.store ∧ Approaches base w.store w'.store ∧
      (tree ≠ [] → Searchable t) ∧ ∀ v : Workspace, v.store.IsTree →
        (tree ≠ [] ∧ Agrees base w.store v.store) ∨ Same w.store v.store →
          ∃ v', (writeFiles l t tree).outcome v = (.ok paths, v') ∧ Same w'.store v'.store := by
  induction tree generalizing w files paths with
  | nil =>
      obtain ⟨same, rfl⟩ := Prod.mk.inj written
      obtain rfl := Except.ok.inj same
      refine ⟨rfl, by simpa [filesOf] using holds, .refl base _, fun h => absurd rfl h,
        fun v _ alike => ?_⟩
      exact ⟨v, rfl, alike.resolve_left fun h => h.1 rfl⟩
  | cons entry tree ih =>
      rw [Table.names_cons, List.nodup_cons] at once
      have path := lasting _ List.mem_cons_self
      obtain ⟨⟨⟩, between, first, written⟩ := Run.bind_eq_ok.mp written
      obtain ⟨more, last, rest, ended⟩ := Run.bind_eq_ok.mp written
      obtain ⟨same, rfl⟩ := Prod.mk.inj ended
      obtain rfl := Except.ok.inj same
      obtain ⟨bytes, fs, wrote, rfl⟩ := writeFile_eq_ok.mp first
      obtain ⟨fs', wrote', holds', approaches, searchable, again⟩ :=
        holds.write down path (fresh _ List.mem_cons_self) (by rw [wrote])
      obtain ⟨-, rfl⟩ := Prod.mk.inj (wrote.symm.trans wrote')
      have fresh' : ∀ p ∈ Table.names tree, base ++ Text.split '/' p ∉
          (files ++ [(base ++ Text.split '/' entry.1, Text.encode entry.2.text)]).map (·.1) := by
        intro p hp
        rw [List.map_append, List.mem_append, not_or]
        refine ⟨fresh p (List.mem_cons_of_mem _ hp), ?_⟩
        rw [List.map_singleton, List.mem_singleton, List.append_cancel_left_eq]
        intro same
        exact once.1 (Text.split_injective same ▸ hp)
      obtain ⟨rfl, holds'', approaches', -, rerun⟩ := ih
        (fun p hp => lasting p (List.mem_cons_of_mem _ hp)) once.2 holds' fresh' rest
      refine ⟨rfl, by simpa [filesOf] using holds'', approaches.trans approaches',
        fun _ => searchable, ?_⟩
      intro v isTree alike
      have agrees : Agrees base w.store v.store := by
        rcases alike with ⟨-, agrees⟩ | same
        · exact agrees
        · exact same.agrees base
      obtain ⟨gs, wrote'', same⟩ := again v.store isTree agrees
      obtain ⟨v', rest', same'⟩ :=
        rerun { v with store := gs } (same.isTree holds'.tree) (.inr same)
      refine ⟨v', ?_, same'⟩
      rw [writeFiles]
      exact Run.bind_eq_ok.mpr ⟨(), _, writeFile_eq_ok.mpr ⟨bytes, gs, wrote'', rfl⟩,
        Run.bind_eq_ok.mpr ⟨_, v', rest', rfl⟩⟩

/-- Clearing looks for the target and takes it away if it is there. -/
theorem outcome_clear (l : Language) (t : FilePath) (w : Workspace) :
    (clear l t).outcome w =
      match w.store.has t with
      | .error _ => (.error (.misuse .unsearchable), w)
      | .ok false => (.ok (), w)
      | .ok true =>
        ((w.store.removeTree t).1.mapError fun f => .emission (.notCleared l t.text f.text),
          { store := (w.store.removeTree t).2
            records := w.records ++
              [⟨.info, .generation, "Removing previous output " ++ t.text⟩] }) := by
  rw [clear, Run.outcome_bind, Run.outcome_get]
  dsimp only
  rw [Run.outcome_bind, Run.outcome_ofOutcome, Configuration.pathExists]
  rcases w.store.has t with e | (_ | _)
  · rfl
  · rfl
  · simp [Run.outcome_bind]

/-- A target that is cleared has nothing left at it or below it. -/
theorem cleared_of_clear (tree : w.store.IsTree) (down : ".." ∉ t.parts)
    (start : w.store.node? (t.start w.store.cwd) = some .folder) (clean : t.isBarred = false)
    (done : (clear l t).outcome w = (.ok (), w')) :
    t.parts ≠ [] ∧ Cleared (w.store.spot t) w.store w'.store := by
  rw [outcome_clear] at done
  split at done
  · cases done
  next absent =>
    obtain ⟨-, rfl⟩ := Prod.mk.inj done
    have none := node?_of_has tree down clean absent
    constructor
    · intro empty
      rw [spot, empty, List.append_nil, start] at none
      cases none
    · refine ⟨rfl, fun at_ => ?_⟩
      split
      next inside =>
        by_contra there
        obtain ⟨node, there⟩ := Option.ne_none_iff_exists'.mp there
        by_cases same : w.store.spot t = at_
        · rw [← same, none] at there
          cases there
        · rw [tree.folder_of_prefix there inside same] at none
          cases none
      next => rfl
  next =>
    obtain ⟨removed, rfl⟩ := Prod.mk.inj done
    have gone : (w.store.removeTree t).1 = .ok () := by
      rcases attempt : (w.store.removeTree t).1 with f | _
      · rw [attempt] at removed
        cases removed
      · rfl
    obtain ⟨named, fs, taken, cleared⟩ := cleared_of_removeTree down gone
    rw [taken]
    exact ⟨named, cleared⟩

/-- A target that is a folder can be cleared. -/
theorem clear_of_folder (down : ".." ∉ t.parts) (named : t.parts ≠ [])
    (found : w.store.locate t = .ok (w.store.spot t))
    (folder : w.store.node? (w.store.spot t) = some .folder) (l : Language) :
    ∃ v, (clear l t).outcome w = (.ok (), v) ∧ Cleared (w.store.spot t) w.store v.store := by
  have there : w.store.has t = .ok true := by simp [has, at?, found, Except.map, folder]
  obtain ⟨fs, taken, cleared⟩ := removeTree_of_folder down named found folder
  rw [outcome_clear, there, taken]
  exact ⟨_, rfl, cleared⟩

/-- A tree that is put in place is all that is there at its target. Putting it in place
again changes nothing. -/
theorem replace_spec (sound : w.store.IsSound) (down : ".." ∉ t.parts)
    (lasting : ∀ path ∈ Table.names tree, Lasting path) (once : (Table.names tree).Nodup)
    (nonempty : tree ≠ []) (done : (replace l t tree).outcome w = (.ok paths, w')) :
    paths = tree.map (fun e => t.child e.1) ∧
      (∀ at_ content, w.store.spot t <+: at_ →
        (w'.store.node? at_ = some (.file content) ↔
          (at_, content) ∈ filesOf (w.store.spot t) tree)) ∧
      Approaches (w.store.spot t) w.store w'.store ∧
      ∀ v : Workspace, v.store = w'.store →
        ∃ v', (replace l t tree).outcome v = (.ok paths, v') ∧ Same w'.store v'.store := by
  have start : w.store.node? (t.start w.store.cwd) = some .folder := by
    rw [FilePath.start]
    split
    · rfl
    · exact sound.cwd
  obtain ⟨⟨⟩, between, emptied, placed⟩ := Run.bind_eq_ok.mp done
  obtain ⟨written, last, files, told⟩ := Run.bind_eq_ok.mp placed
  obtain ⟨same, rfl⟩ := Prod.mk.inj told
  obtain rfl := Except.ok.inj same
  have clean : t.isBarred = false := by
    by_contra barred
    rw [writeFiles_of_isBarred (fun path hp => (lasting path hp).inner) nonempty
      (by simpa using barred)] at files
    cases files
  obtain ⟨named, cleared⟩ := cleared_of_clear sound.tree down start clean emptied
  obtain ⟨rfl, holds, approaches, searchable, rerun⟩ :=
    holds_of_writeFiles down lasting once (cleared.holds sound.tree named start) (by simp) files
  refine ⟨rfl, holds.files_iff, cleared.approaches.trans approaches, fun v same => ?_⟩
  have inside : w.store.spot t ≠ [] := by simp [spot, named]
  have folder (at_ : Location) (above : at_ <+: w.store.spot t) :
      last.store.node? at_ = some .folder := by
    obtain ⟨entry, tree', rfl⟩ := List.exists_cons_of_ne_nil nonempty
    have there := (holds.files_iff _ _ (List.prefix_append _ _)).mpr List.mem_cons_self
    refine holds.tree.folder_of_prefix there (above.trans (List.prefix_append _ _)) ?_
    rintro rfl
    have length := above.length_le
    have path : Lasting entry.1 := lasting _ List.mem_cons_self
    have pieces := path.inner.named
    rw [path.parts_eq] at pieces
    have positive := List.length_pos_iff.mpr pieces
    rw [List.length_append] at length
    omega
  have stored : v.store = last.store := same
  have spot_eq : v.store.spot t = w.store.spot t := by rw [stored, holds.spot_eq]
  have found : v.store.locate t = .ok (v.store.spot t) := by
    refine (locate_eq_ok_iff down).mpr ⟨⟨searchable nonempty, fun _ => ?_⟩, rfl⟩
    rw [spot_eq, stored]
    exact folder _ (List.dropLast_prefix _)
  obtain ⟨v₁, emptied', cleared'⟩ := clear_of_folder down named found
    (by rw [spot_eq, stored]; exact folder _ (List.prefix_refl _)) l
  rw [spot_eq, stored] at cleared'
  have agrees : Agrees (w.store.spot t) between.store v₁.store := by
    refine ⟨cleared'.cwd.trans approaches.cwd, fun at_ => ?_⟩
    rw [cleared'.node?_eq]
    split
    next below => exact .inl (by rw [cleared.node?_eq, if_pos below])
    next outside => exact approaches.node? at_ outside
  obtain ⟨v₂, files', same'⟩ := rerun v₁ (cleared'.isTree holds.tree) (.inl ⟨nonempty, agrees⟩)
  exact ⟨_, Run.bind_eq_ok.mpr ⟨(), v₁, emptied', Run.bind_eq_ok.mpr ⟨_, v₂, files', rfl⟩⟩, same'⟩

variable {c : Configuration} {given : Option Registry} {s : Specification} {product : Product}

/-- A run succeeds if it plans a tree, puts it in place and takes the fingerprint. -/
theorem ofSpecification_eq_ok :
    (ofSpecification c given s).outcome w = (.ok product, w') ↔
      ∃ p written fingerprint, plan c (registryFor given) s = .ok p ∧
        (replace p.language p.target p.tree).outcome (started c given s w) = (.ok written, w') ∧
        buildFingerprint p.definitions p.actions = .ok fingerprint ∧
        product = ⟨p.definitions, p.actions, written, fingerprint⟩ := by
  have start : (ofSpecification c given s).outcome w =
      (Run.ofOutcome (plan c (registryFor given) s) >>= carryOut).outcome (started c given s w) :=
    rfl
  have steps (p : Plan) : carryOut p = replace p.language p.target p.tree >>= fun written =>
      Run.ofOutcome (buildFingerprint p.definitions p.actions) >>= fun fingerprint =>
        pure ⟨p.definitions, p.actions, written, fingerprint⟩ := by
    rw [replace, bind_assoc]
    rfl
  rw [start, Run.bind_eq_ok]
  constructor
  · rintro ⟨p, v, planned, done⟩
    rw [Run.outcome_ofOutcome] at planned
    obtain ⟨plans, rfl⟩ := Prod.mk.inj planned
    rw [steps] at done
    obtain ⟨written, v, put, done⟩ := Run.bind_eq_ok.mp done
    obtain ⟨fingerprint, v', taken, done⟩ := Run.bind_eq_ok.mp done
    rw [Run.outcome_ofOutcome] at taken
    obtain ⟨hashes, rfl⟩ := Prod.mk.inj taken
    obtain ⟨made, rfl⟩ := Prod.mk.inj done
    exact ⟨p, written, fingerprint, plans, put, hashes, (Except.ok.inj made).symm⟩
  · rintro ⟨p, written, fingerprint, planned, put, taken, rfl⟩
    refine ⟨p, _, by rw [Run.outcome_ofOutcome, planned], ?_⟩
    rw [steps]
    exact Run.bind_eq_ok.mpr ⟨written, w', put, Run.bind_eq_ok.mpr
      ⟨fingerprint, w', by rw [Run.outcome_ofOutcome, taken], rfl⟩⟩

/-- A run that returns leaves exactly the files of the rendered tree at its target, tells
them in their order, and keeps every file outside. The same run again returns the same
and changes nothing. -/
theorem files_of_run {target : FilePath} (sound : w.store.IsSound)
    (leads : c.targetDir = .ok target) (down : ".." ∉ target.parts)
    (returned : (ofSpecification c given s).outcome w = (.ok product, w')) :
    ∃ e tree, emitter c s = .ok e ∧
      Catalog.definitions (registryFor given) c.policy s.types s.traits =
        .ok product.definitions ∧
      render e product.definitions s.actions = .ok tree ∧
      product.written = tree.map (fun file => target.child file.1) ∧
      (∀ at_ content, target.place w.store.cwd <+: at_ →
        (w'.store.node? at_ = some (.file content) ↔
          (at_, content) ∈ filesOf (target.place w.store.cwd) tree)) ∧
      (∀ at_, ¬ target.place w.store.cwd <+: at_ →
        (w'.store.node? at_).bind Node.content? = (w.store.node? at_).bind Node.content?) ∧
      ∃ w'', (ofSpecification c given s).outcome w' = (.ok product, w'') ∧
        Same w'.store w''.store := by
  obtain ⟨p, written, fingerprint, planned, put, taken, rfl⟩ := ofSpecification_eq_ok.mp returned
  obtain ⟨definitions, e, tree, _, built, made, rendered, there, rfl⟩ := plan_eq_ok.mp planned
  obtain rfl := Except.ok.inj (leads.symm.trans there)
  obtain ⟨nonempty, -⟩ := isInner_of_render rendered
  obtain ⟨lasting, once⟩ := lasting_of_render rendered
  have place : target.place w.store.cwd = w.store.spot target := place_of_notMem sound.plain down
  have sound' : (started c given s w).store.IsSound := sound
  obtain ⟨rfl, files, approaches, again⟩ := replace_spec sound' down lasting once nonempty put
  refine ⟨e, tree, made, built, rendered, rfl, ?_, ?_, ?_⟩
  · rw [place]
    exact files
  · rw [place]
    exact fun at_ outside => approaches.content?_eq outside
  · obtain ⟨w'', put', same⟩ := again (started c given s w') rfl
    exact ⟨w'', ofSpecification_eq_ok.mpr ⟨_, _, fingerprint, planned, put', taken, rfl⟩, same⟩

/-- What an earlier run has left is gone, what lies beside the target stays, and the same
run again changes nothing. -/
theorem previous_tree_replaced : ∃ s product w' w'',
    (ofSpecification .default none s).outcome ⟨⟨[(["build"], .folder),
      (["build", "notes"], .file ⟨#[110]⟩), (["build", "api"], .folder),
      (["build", "api", "old.js"], .file ⟨#[111]⟩)], []⟩, []⟩ = (.ok product, w') ∧
    w'.store.node? ["build", "api", "old.js"] = none ∧
    (w'.store.node? ["build", "notes"]).bind Node.content? = some ⟨#[110]⟩ ∧
    (ofSpecification .default none s).outcome w' = (.ok product, w'') ∧
    Same w'.store w''.store := by
  let s : Specification := ⟨"Api", [], [], [], .null, none⟩
  let before : FileStore := ⟨[(["build"], .folder), (["build", "notes"], .file ⟨#[110]⟩),
    (["build", "api"], .folder), (["build", "api", "old.js"], .file ⟨#[111]⟩)], []⟩
  have succeeds : ((ofSpecification .default none s).outcome ⟨before, []⟩).1.isOk = true := by
    decide +kernel
  have gone : (((ofSpecification .default none s).outcome ⟨before, []⟩).2.store.node?
      ["build", "api", "old.js"]).isNone = true := by
    decide +kernel
  have sound : before.IsSound := ⟨isTree_of_nodes (by decide), rfl, by decide⟩
  have leads : Configuration.default.targetDir = .ok ⟨"", ["build", "api"]⟩ := by
    with_unfolding_all rfl
  rcases ended : (ofSpecification .default none s).outcome ⟨before, []⟩ with ⟨f | product, w'⟩
  · rw [ended] at succeeds
    cases succeeds
  · obtain ⟨e, tree, made, built, rendered, -, files, others, w'', again, same⟩ :=
      files_of_run (w := ⟨before, []⟩) sound leads (by decide) ended
    have place : FilePath.place before.cwd ⟨"", ["build", "api"]⟩ = ["build", "api"] := by decide
    rw [ended] at gone
    exact ⟨s, product, w', w'', ended, Option.isNone_iff_eq_none.mp gone,
      others ["build", "notes"] (by rw [place]; decide), again, same⟩

end Generation

end ClientForge
