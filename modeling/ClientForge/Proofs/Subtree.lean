import ClientForge.Proofs.Containment
import ClientForge.Proofs.Inclusion
import ClientForge.Proofs.PathText
import ClientForge.Proofs.SoundStore

/-!
# Trees within a store

A tree of files can lie in the folder of any path. What a path into the tree leads to, as
long as it stays inside, is up to the tree alone: the walk to the folder is the same for all
of them, and from there on every step is one in the tree. Where folders are made for a path
and nothing else is, a copy comes about file by file.
-/

namespace ClientForge

open FilePath

namespace FileStore

variable {fs tree : FileStore} {d p : FilePath} {at_ other place : Location}
  {parts more : List String}

/-! ## Walks -/

/-- Plain names that are not too long lead through folders. -/
theorem walk_of_plain (down : ".." ∉ parts) (names : ∀ part ∈ parts, isTooLong part = false)
    (way : ∀ other, other <+: at_ ++ parts → other ≠ at_ ++ parts →
      fs.node? other = some .folder) : fs.walk at_ parts = .ok (at_ ++ parts) := by
  rw [walk_of_folders down way, if_neg (by simpa using names)]

/-- In a sound store every path is walked part by part. -/
theorem locate_eq_walk (sound : fs.IsSound) (clean : p.isBarred = false)
    (short : isPathTooLong p = false) : fs.locate p = fs.walk (p.start fs.cwd) p.parts := by
  have start : (if p.isAbsolute then [] else fs.cwd) = p.start fs.cwd := rfl
  rw [locate, if_neg (by simp [clean]), if_neg (by simp [short]), start]
  dsimp only
  split
  next found =>
    obtain ⟨down, named, rfl, folder⟩ := holder_of_direct? found
    obtain ⟨⟨-, names, -⟩, -⟩ := (direct?_eq_some_iff down).mp found
    refine (walk_of_plain down names fun other above strict => ?_).symm
    rcases (prefix_iff_eq_or_dropLast (by simp [named])).mp above with same | above
    · exact absurd same strict
    · by_cases last : other = (p.start fs.cwd ++ p.parts).dropLast
      · rw [last, folder]
      · exact sound.tree.folder_of_prefix folder above last
  next => rfl

/-- A walk is the walk along the first parts and on from there. -/
theorem walk_append : fs.walk at_ (parts ++ more) =
    fs.walk at_ parts >>= fun other => fs.walk other more := by
  induction parts generalizing at_ with
  | nil => rfl
  | cons part rest ih =>
      rw [List.cons_append, walk, walk]
      split
      · rfl
      · rfl
      · split
        · rfl
        · exact ih

/-! ## Trees -/

/-- A store that has a copy of a tree in the folder of a path, and nothing else there. The
tree is a store of its own whose root is that folder. -/
structure HoldsCopy (fs : FileStore) (d : FilePath) (tree : FileStore) : Prop where
  sound : fs.IsSound
  readable : d.Readable
  copied : ∃ place, fs.locate d = .ok place ∧
    ∀ below, fs.node? (place ++ below) = tree.node? below

/-- A step inside of a tree is one in the tree. -/
theorem descend_inside {part : String} {rest : List String}
    (inside : (depthFrom at_.length (part :: rest)).isSome) :
    descend (place ++ at_) part = place ++ descend at_ part ∧
      (depthFrom (descend at_ part).length rest).isSome := by
  unfold depthFrom at inside
  unfold descend
  split at inside
  next dots =>
    rw [if_pos dots, if_pos dots]
    cases count : at_.length with
    | zero => simp [count] at inside
    | succ deep =>
        have named : at_ ≠ [] := by
          rintro rfl
          cases count
        rw [count] at inside
        refine ⟨List.dropLast_append_of_ne_nil named, ?_⟩
        rwa [List.length_dropLast, count]
  next forward =>
    rw [if_neg forward, if_neg forward, List.append_assoc]
    exact ⟨rfl, by rwa [List.length_append]⟩

/-- A walk that stays inside a tree is one in the tree. -/
theorem walk_inside (copied : ∀ below, fs.node? (place ++ below) = tree.node? below)
    (inside : (depthFrom at_.length parts).isSome) :
    fs.walk (place ++ at_) parts = (tree.walk at_ parts).map (place ++ ·) := by
  induction parts generalizing at_ with
  | nil => rfl
  | cons part rest ih =>
      obtain ⟨step, further⟩ : descend (place ++ at_) part = place ++ descend at_ part ∧ _ :=
        descend_inside inside
      rw [walk, walk, copied, step]
      split
      · rfl
      · rfl
      · split
        · rfl
        · exact ih further

/-- What a file in a tree holds, or why there is none to be read. -/
def content (tree : FileStore) (parts : List String) : Except AccessError ByteArray :=
  match (tree.walk [] parts).map tree.node? with
  | .ok (some (.file bytes)) => .ok bytes
  | .ok (some .folder) => .error .isFolder
  | .ok none => .error .missing
  | .error e => .error e

/-- What holds something leads to a file. -/
theorem node?_of_content {bytes : ByteArray} (h : tree.content parts = .ok bytes) :
    ∃ at_, tree.walk [] parts = .ok at_ ∧ tree.node? at_ = some (.file bytes) := by
  unfold content at h
  cases walked : tree.walk [] parts with
  | error e =>
      rw [walked] at h
      cases h
  | ok at_ =>
      rw [walked, Except.map] at h
      refine ⟨at_, rfl, ?_⟩
      cases there : tree.node? at_ with
      | none =>
          rw [there] at h
          cases h
      | some node =>
          rw [there] at h
          cases node with
          | folder => cases h
          | file held => rw [Except.ok.inj h]

end FileStore

/-- A path into the tree below another path. -/
def FilePath.below (d : FilePath) (parts : List String) : FilePath := ⟨d.root, d.parts ++ parts⟩

/-- Where a path into a tree is not too long, the path to the tree is not either. -/
theorem FileStore.isPathTooLong_of_below {d : FilePath} {parts : List String}
    (short : isPathTooLong (d.below parts) = false) : isPathTooLong d = false := by
  have le := utf8ByteSize_text_le (p := d.below parts) (q := d) rfl (List.prefix_append _ _)
  rw [isPathTooLong, decide_eq_false_iff_not] at short ⊢
  omega

namespace FileStore.HoldsCopy

variable {fs tree : FileStore} {d : FilePath} {parts : List String}

theorem clean (copy : HoldsCopy fs d tree) : d.isBarred = false := by
  obtain ⟨place, found, -⟩ := copy.copied
  cases barred : d.isBarred with
  | false => rfl
  | true =>
      rw [locate_of_isBarred barred] at found
      cases found

theorem isBarred_below (copy : HoldsCopy fs d tree) (parts : List String) :
    (d.below parts).isBarred = parts.any isBarredPart := by
  have clean := copy.clean
  rw [isBarred] at clean
  rw [isBarred, below, List.any_append, clean, Bool.false_or]

theorem barring_below (copy : HoldsCopy fs d tree) (parts : List String) :
    (d.below parts).barring = FilePath.barring ⟨"", parts⟩ := by
  have encoded : d.parts.any holdsStray = false := by
    rw [List.any_eq_false]
    intro part hp stray
    refine List.any_eq_false.mp copy.clean part hp ?_
    rw [isBarredPart, stray, Bool.true_or]
  rw [barring, barring, below, List.any_append, encoded, Bool.false_or]

/-- A file in a copy of a tree holds what it holds in the tree. -/
theorem read_below (copy : HoldsCopy fs d tree) (inside : (depthFrom 0 parts).isSome)
    (clean : parts.any isBarredPart = false)
    (short : isPathTooLong (d.below parts) = false) :
    fs.read (d.below parts) =
      (tree.content parts).mapError fun e => ⟨e, (d.below parts).quoted⟩ := by
  obtain ⟨place, found, copied⟩ := copy.copied
  have way : fs.walk (d.start fs.cwd) d.parts = .ok place := by
    rw [← locate_eq_walk copy.sound copy.clean (isPathTooLong_of_below short), found]
  have located : fs.locate (d.below parts) = (tree.walk [] parts).map (place ++ ·) := by
    rw [locate_eq_walk copy.sound (by rw [copy.isBarred_below, clean]) short]
    change fs.walk (d.start fs.cwd) (d.parts ++ parts) = _
    have walked : fs.walk (place ++ []) parts = (tree.walk [] parts).map (place ++ ·) :=
      walk_inside copied inside
    rw [List.append_nil] at walked
    rw [walk_append, way]
    exact walked
  rw [read, at?, located, content]
  cases tree.walk [] parts with
  | error e => rfl
  | ok at_ =>
      simp only [Except.map, copied]
      rcases tree.node? at_ with _ | ⟨_ | _⟩ <;> rfl

end FileStore.HoldsCopy

namespace FileStore

variable {fs tree : FileStore} {d : FilePath} {at_ place : Location} {content : ByteArray}

/-! ## Filling a folder -/

/-- A store with nothing in it. -/
def vacant : FileStore := ⟨[], []⟩

theorem node?_vacant (named : at_ ≠ []) : vacant.node? at_ = none := by
  rw [node?_of_ne_nil named]
  rfl

theorem isSound_vacant : vacant.IsSound := by
  refine ⟨fun at_ node named there => ?_, rfl, List.not_mem_nil⟩
  rw [node?_vacant named] at there
  cases there

/-- Nothing is in the way of making folders where nothing is. -/
theorem passable_vacant (searchable : Searchable d) : Passable vacant d := by
  refine ⟨searchable, fun other _ => ?_⟩
  by_cases root : other = []
  · exact .inr (root ▸ node?_nil vacant)
  · exact .inl (node?_vacant root)

theorem LeadsTo.isSound {fs' : FileStore} (way : LeadsTo place fs fs') (sound : fs.IsSound) :
    fs'.IsSound := by
  refine ⟨way.isTree sound.tree, ?_, by rw [way.cwd]; exact sound.plain⟩
  rw [way.cwd, way.node?_eq, sound.cwd, ite_self]

/-- A path that goes down along names leads to an empty folder, where folders are made for it
and nothing else is. -/
theorem holdsCopy_vacant (readable : d.Readable) (searchable : Searchable d)
    (down : ".." ∉ d.parts) :
    HoldsCopy (vacant.ensureFolders d).2 d vacant ∧
      (vacant.ensureFolders d).2.locate d = .ok (vacant.spot d) := by
  have start : vacant.node? (d.start vacant.cwd) = some .folder := by
    unfold FilePath.start
    split <;> rfl
  obtain ⟨fs, made, way⟩ :=
    ensureFolders_of_passable isSound_vacant.tree down start (passable_vacant searchable)
  rw [made]
  have holds : ∀ other, fs.node? other =
      if other <+: vacant.spot d then some .folder else vacant.node? other := way.node?_eq
  have found : fs.locate d = .ok (vacant.spot d) := by
    refine (locate_eq_ok_iff down).mpr ⟨⟨searchable, fun _ => ?_⟩, (way.spot_eq d).symm⟩
    rw [way.spot_eq, holds, if_pos (List.dropLast_prefix _)]
  refine ⟨⟨way.isSound isSound_vacant, readable, vacant.spot d, found, fun below => ?_⟩, found⟩
  rw [holds]
  by_cases inner : below = []
  · rw [inner, List.append_nil, if_pos (List.prefix_refl _)]
    rfl
  · rw [if_neg, node?_vacant (by simp [inner]), node?_vacant inner]
    intro above
    have le := above.length_le
    rw [List.length_append] at le
    exact inner (List.eq_nil_of_length_eq_zero (by omega))

/-- A file can be put into a copy as it can be put into the tree. -/
theorem HoldsCopy.put (copy : HoldsCopy fs d tree) (found : fs.locate d = .ok place)
    (named : at_ ≠ []) (holder : tree.node? at_.dropLast = some .folder)
    (free : tree.node? at_ ≠ some .folder) :
    HoldsCopy (fs.put (place ++ at_) (.file content)) d (tree.put at_ (.file content)) ∧
      (fs.put (place ++ at_) (.file content)).locate d = .ok place := by
  obtain ⟨place', found', copied⟩ := copy.copied
  obtain rfl := Except.ok.inj (found'.symm.trans found)
  have named' : place' ++ at_ ≠ [] := by simp [named]
  have free' : fs.node? (place' ++ at_) ≠ some .folder := by rwa [copied]
  have retains : Retains fs (fs.put (place' ++ at_) (.file content)) := by
    refine ⟨cwd_put _ _ _, fun other folder => ?_⟩
    have elsewhere : other ≠ place' ++ at_ := by
      rintro rfl
      exact free' folder
    rw [node?_put named', if_neg elsewhere, folder]
  have again := retains.locate_eq found
  refine ⟨⟨?_, copy.readable, place', again, fun below => ?_⟩, again⟩
  · refine copy.sound.put named' ?_ (.inr free')
    rw [List.dropLast_append_of_ne_nil named, copied, holder]
  · rw [node?_put named', node?_put named, copied]
    simp only [List.append_right_inj]

end FileStore

end ClientForge
