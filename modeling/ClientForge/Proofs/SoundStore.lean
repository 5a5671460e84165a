import ClientForge.Proofs.Replacement
import Mathlib.Data.List.Perm.Subperm
import Mathlib.Data.Nat.Find

/-!
# Stores in good order

In a sound store everything lies in a folder. A path that is found there has come through
folders, whatever double dots it holds, and is found again in any store that keeps the
folders. The names of temporary neighbours are told apart by their numbers, so one of them
is always free, and the first free one is taken.
-/

namespace ClientForge

/-- Numerals of a width are numerals of one number. -/
theorem Text.padded_injective (width : Nat) : Function.Injective (padded width) := by
  have value (n : Nat) : Nat.ofDigitChars 10 (padded width n).toList 0 = n := by
    have zeros (k : Nat) : Nat.ofDigitChars 10 (List.replicate k '0') 0 = 0 := by
      induction k with
      | zero => rfl
      | succ k ih => simp [List.replicate_succ, Nat.ofDigitChars_cons, ih]
    have digits : (toString n).toList = Nat.toDigits 10 n := by
      rw [Nat.toString_eq_repr, Nat.repr_eq_ofList_toDigits, String.toList_ofList]
    rw [padded, String.toList_ofList, Nat.ofDigitChars_append, zeros, digits,
      Nat.ofDigitChars_ten_toDigits]
  intro n m same
  rw [← value n, same, value]

open FilePath

namespace FileStore

variable {fs fs' : FileStore} {p : FilePath} {at_ other : Location} {node : Node}
  {parts : List String}

section TemporaryName

variable {folder : Location} {name : String} {n : Nat}

theorem temporaryName_injective (name : String) : Function.Injective (temporaryName name) := by
  intro n m same
  refine Text.padded_injective 8 ?_
  simpa [temporaryName] using same

/-- Whether a temporary name is the first one that is free in a folder. -/
structure IsFirstFree (fs : FileStore) (folder : Location) (name : String) (n : Nat) : Prop where
  free : fs.node? (folder ++ [temporaryName name n]) = none
  taken : ∀ m < n, (fs.node? (folder ++ [temporaryName name m])).isSome = true

/-- No more temporary names are taken than there are files and folders. -/
theorem length_le_of_taken
    (taken : ∀ m < n, (fs.node? (folder ++ [temporaryName name m])).isSome = true) :
    n ≤ fs.nodes.length := by
  let names := (List.range n).map fun m => folder ++ [temporaryName name m]
  have once : names.Nodup := by
    refine List.nodup_range.map fun m k same => ?_
    exact temporaryName_injective name (by simpa using same)
  have listed : names ⊆ fs.nodes.map (·.1) := by
    intro at_ member
    obtain ⟨m, small, rfl⟩ := List.mem_map.mp member
    obtain ⟨node, there⟩ := Option.isSome_iff_exists.mp (taken m (List.mem_range.mp small))
    rw [node?_of_ne_nil (by simp), Option.map_eq_some_iff] at there
    obtain ⟨e, found, -⟩ := there
    exact List.mem_map.mpr
      ⟨e, List.mem_of_find?_eq_some found, by simpa using List.find?_some found⟩
  simpa [names] using (once.subperm listed).length_le

/-- Some temporary name is free. -/
theorem exists_isFirstFree (fs : FileStore) (folder : Location) (name : String) :
    ∃ n, IsFirstFree fs folder name n := by
  have some_free : ∃ n, fs.node? (folder ++ [temporaryName name n]) = none := by
    by_contra none_free
    have all : ∀ m < fs.nodes.length + 1,
        (fs.node? (folder ++ [temporaryName name m])).isSome = true :=
      fun m _ => Option.isSome_iff_ne_none.mpr fun free => none_free ⟨m, free⟩
    exact absurd (length_le_of_taken all) (by simp)
  refine ⟨Nat.find some_free, Nat.find_spec some_free, fun m earlier => ?_⟩
  exact Option.isSome_iff_ne_none.mpr (Nat.find_min some_free earlier)

theorem freshName_eq_of_le {fuel k : Nat} (first : IsFirstFree fs folder name n) (from_ : k ≤ n)
    (enough : n ≤ k + fuel) : fs.freshName folder name fuel k = temporaryName name n := by
  induction fuel generalizing k with
  | zero =>
      obtain rfl : k = n := by omega
      rfl
  | succ fuel ih =>
      unfold freshName
      dsimp only
      split
      next taken =>
        have other : k ≠ n := by
          rintro rfl
          simp [first.free] at taken
        exact ih (by omega) (by omega)
      next free =>
        have last : ¬ k < n := fun earlier => free (first.taken k earlier)
        obtain rfl : k = n := by omega
        rfl

/-- The first free name is the one that a temporary neighbour gets. -/
theorem freshName_eq (first : IsFirstFree fs folder name n) :
    fs.freshName folder name (fs.nodes.length + 1) 0 = temporaryName name n := by
  refine freshName_eq_of_le first (Nat.zero_le n) ?_
  have few := length_le_of_taken first.taken
  omega

end TemporaryName

section Soundness

theorem IsTree.put (tree : fs.IsTree) (named : at_ ≠ [])
    (holder : fs.node? at_.dropLast = some .folder)
    (vacant : node = .folder ∨ fs.node? at_ ≠ some .folder) : (fs.put at_ node).IsTree := by
  intro other held strict there
  rw [node?_put named] at there ⊢
  have folder : fs.node? other.dropLast = some .folder := by
    by_cases same : other = at_
    · exact same ▸ holder
    · rw [if_neg same] at there
      exact tree other held strict there
  split
  next same => exact vacant.elim (fun h => h ▸ rfl) fun h => absurd (same ▸ folder) h
  next => exact folder

/-- Changing a store at a place that is no folder, or leaving a folder there, keeps it sound. -/
theorem IsSound.put (sound : fs.IsSound) (named : at_ ≠ [])
    (holder : fs.node? at_.dropLast = some .folder)
    (vacant : node = .folder ∨ fs.node? at_ ≠ some .folder) : (fs.put at_ node).IsSound := by
  refine ⟨sound.tree.put named holder vacant, ?_, by simpa using sound.plain⟩
  rw [cwd_put, node?_put named]
  split
  next same => exact vacant.elim (fun h => h ▸ rfl) fun h => absurd (same ▸ sound.cwd) h
  next => exact sound.cwd

/-- A walk through a tree that ends where nothing is ends in a folder. -/
theorem holder_of_walk (tree : fs.IsTree) (h : fs.walk at_ parts = .ok other)
    (start : fs.node? at_ ≠ none ∨ fs.node? at_.dropLast = some .folder) :
    fs.node? other ≠ none ∨ fs.node? other.dropLast = some .folder := by
  fun_induction walk fs at_ parts with
  | case1 => exact Except.ok.inj h ▸ start
  | case2 => cases h
  | case3 => cases h
  | case4 => cases h
  | case5 at_ part rest folder short ih =>
      refine ih h ?_
      unfold descend
      split
      · left
        by_cases root : at_ = []
        · simp [root]
        · simp [tree at_ .folder root folder]
      · right
        rw [List.dropLast_concat, folder]

/-- What is found at once lies in a folder, and no part leads back. -/
theorem holder_of_direct? (h : fs.direct? at_ parts = some other) :
    ".." ∉ parts ∧ parts ≠ [] ∧ other = at_ ++ parts ∧
      fs.node? other.dropLast = some .folder := by
  have down : ".." ∉ parts := by
    unfold direct? at h
    cases parts with
    | nil => cases h
    | cons part rest =>
        dsimp only at h
        split at h
        next names =>
          intro dots
          simpa using List.all_eq_true.mp names _ dots
        next => cases h
  obtain ⟨⟨named, -, folder⟩, rfl⟩ := (direct?_eq_some_iff down).mp h
  exact ⟨down, named, rfl, folder⟩

/-- A path that is found where nothing is leads into a folder. -/
theorem holder_of_locate (sound : fs.IsSound) (found : fs.locate p = .ok at_)
    (absent : fs.node? at_ = none) : fs.node? at_.dropLast = some .folder := by
  have start : fs.node? (if p.isAbsolute then [] else fs.cwd) ≠ none := by
    split
    · simp
    · simp [sound.cwd]
  unfold locate at found
  split at found
  · cases found
  · split at found
    · cases found
    · dsimp only at found
      split at found
      next direct =>
        obtain rfl := Except.ok.inj found
        exact (holder_of_direct? direct).2.2.2
      next =>
        exact (holder_of_walk sound.tree found (.inl start)).resolve_left (not_not_intro absent)

/-- A walk that goes on has come through folders. -/
theorem folder_of_walk {more : List String} (h : fs.walk at_ (parts ++ more) = .ok other)
    (further : more ≠ []) : fs.node? (parts.foldl descend at_) = some .folder := by
  induction parts generalizing at_ with
  | nil =>
      obtain ⟨part, rest, rfl⟩ := List.exists_cons_of_ne_nil further
      rw [List.nil_append, walk] at h
      split at h
      · cases h
      · cases h
      next folder => exact folder
  | cons part rest ih =>
      rw [List.cons_append, walk] at h
      split at h
      · cases h
      · cases h
      · split at h
        · cases h
        · exact ih h

/-- What a path that is found leads through is made of folders. -/
theorem folder_of_locate (sound : fs.IsSound) (found : fs.locate p = .ok at_) {root : String}
    (same : root = p.root) (above : parts <+: p.parts) (strict : parts ≠ p.parts) :
    fs.node? (place fs.cwd ⟨root, parts⟩) = some .folder := by
  subst same
  obtain ⟨more, whole⟩ := above
  have further : more ≠ [] := by
    rintro rfl
    exact strict (by simpa using whole)
  have start : start fs.cwd ⟨p.root, parts⟩ = if p.isAbsolute then [] else fs.cwd := rfl
  rw [place_eq_foldl sound.plain, start]
  unfold locate at found
  split at found
  · cases found
  · split at found
    · cases found
    · dsimp only at found
      split at found
      next direct =>
        obtain ⟨down, -, rfl, folder⟩ := holder_of_direct? direct
        rw [← whole] at down folder
        rw [foldl_descend_of_notMem fun dots => down (List.mem_append_left _ dots)]
        rw [← List.append_assoc, List.dropLast_append_of_ne_nil further] at folder
        by_cases last : more.dropLast = []
        · simpa [last] using folder
        · exact sound.tree.folder_of_prefix folder (List.prefix_append _ _) (by simpa using last)
      next =>
        rw [← whole] at found
        exact folder_of_walk found further

end Soundness

/-- A path without its last part, and that part. -/
theorem place_eq_parent (plain : ".." ∉ fs.cwd) (named : p.parts ≠ []) (forward : p.name ≠ "..") :
    p.place fs.cwd = p.parent.place fs.cwd ++ [p.name] := by
  have last : p.parent.parts ++ [p.name] = p.parts := by
    rw [parent, FilePath.name, List.getLast?_eq_some_getLast named, Option.getD_some,
      List.dropLast_concat_getLast]
  have whole : p = ⟨p.parent.root, p.parent.parts ++ [p.name]⟩ := by
    rw [last]
    rfl
  conv_lhs => rw [whole]
  exact place_append plain (by simpa using forward.symm)

theorem Same.refl (fs : FileStore) : Same fs fs := ⟨rfl, fun _ => rfl⟩

theorem Same.trans {gs hs : FileStore} (first : Same fs gs) (second : Same gs hs) : Same fs hs :=
  ⟨second.cwd.trans first.cwd, fun at_ => (second.node? at_).trans (first.node? at_)⟩

theorem Same.isSound {gs : FileStore} (same : Same fs gs) (sound : fs.IsSound) : gs.IsSound :=
  ⟨same.isTree sound.tree, by rw [same.cwd, same.node?, sound.cwd],
    by rw [same.cwd]; exact sound.plain⟩

theorem hasFolder_iff : fs.hasFolder p = true ↔
    ∃ at_, fs.locate p = .ok at_ ∧ fs.node? at_ = some .folder := by
  rw [hasFolder, at?]
  rcases fs.locate p with e | at_
  · simp [Except.map]
  · rcases there : fs.node? at_ with _ | ⟨_ | _⟩ <;> simp [Except.map, there, Node.isFolder]

/-- Whether every folder of a store is one of another store. -/
structure Retains (fs fs' : FileStore) : Prop where
  cwd : fs'.cwd = fs.cwd
  folder : ∀ at_, fs.node? at_ = some .folder → fs'.node? at_ = some .folder

namespace Retains

variable (retains : Retains fs fs')
include retains

theorem walk_eq (h : fs.walk at_ parts = .ok other) : fs'.walk at_ parts = .ok other := by
  fun_induction walk fs at_ parts with
  | case1 => exact h
  | case2 => cases h
  | case3 => cases h
  | case4 => cases h
  | case5 at_ part rest folder short ih =>
      rw [walk, retains.folder _ folder]
      simpa [short] using ih h

/-- Where folders stay every path that is found is found again. -/
theorem locate_eq (found : fs.locate p = .ok at_) : fs'.locate p = .ok at_ := by
  unfold locate at found ⊢
  rw [retains.cwd]
  split at found
  · cases found
  next clean =>
    rw [if_neg clean]
    split at found
    · cases found
    next short =>
      rw [if_neg short]
      dsimp only at found ⊢
      split at found
      next direct =>
        obtain rfl := Except.ok.inj found
        obtain ⟨down, named, rfl, folder⟩ := holder_of_direct? direct
        obtain ⟨⟨-, names, -⟩, -⟩ := (direct?_eq_some_iff down).mp direct
        have again : fs'.direct? (if p.isAbsolute then [] else fs.cwd) p.parts = some _ :=
          (direct?_eq_some_iff down).mpr ⟨⟨named, names, retains.folder _ folder⟩, rfl⟩
        rw [again]
      next =>
        have walked := retains.walk_eq found
        split
        next direct => rw [direct?_eq_some direct, walk_eq_ok walked]
        next => exact walked

theorem hasFolder (there : fs.hasFolder p = true) : fs'.hasFolder p = true := by
  obtain ⟨at_, found, folder⟩ := hasFolder_iff.mp there
  exact hasFolder_iff.mpr ⟨at_, retains.locate_eq found, retains.folder at_ folder⟩

end Retains

end FileStore

end ClientForge
