import ClientForge.Proofs.Location
import Mathlib.Data.List.Induction

/-!
# Making folders and writing files

In a store where everything lies in a folder, the folders on the way to a path are made
exactly if no file stands on that way and no name or path is too long. A file is written
exactly if the way to its folder can be made, its temporary neighbour can be named, and
no folder stands in its place. Then it is there, the way to it consists of folders, and
everything else is as before.
-/

namespace ClientForge

open FilePath

namespace FileStore

variable {fs fs' fs'' : FileStore} {p : FilePath} {at_ other place : Location} {node : Node}
  {parts : List String}

theorem prefix_iff_eq_or_dropLast (h : at_ ≠ []) :
    other <+: at_ ↔ other = at_ ∨ other <+: at_.dropLast := by
  conv_lhs => rw [← List.dropLast_concat_getLast h]
  rw [List.prefix_concat_iff, List.dropLast_concat_getLast h]

theorem not_prefix_dropLast (h : at_ ≠ []) : ¬ at_ <+: at_.dropLast := by
  intro above
  have length := above.length_le
  have positive := List.length_pos_iff.mpr h
  rw [List.length_dropLast] at length
  omega

/-- Whether everything in a store lies in a folder. -/
def IsTree (fs : FileStore) : Prop :=
  ∀ at_ node, at_ ≠ [] → fs.node? at_ = some node → fs.node? at_.dropLast = some .folder

/-- What is on the way to something is a folder. -/
theorem IsTree.folder_of_prefix (tree : fs.IsTree) (there : fs.node? at_ = some node)
    (above : other <+: at_) (strict : other ≠ at_) : fs.node? other = some .folder := by
  induction at_ using List.reverseRecOn generalizing node with
  | nil => exact absurd (List.prefix_nil.mp above) strict
  | append_singleton up name ih =>
      have folder := tree _ _ (by simp) there
      rw [List.dropLast_concat] at folder
      rcases List.prefix_concat_iff.mp above with same | above
      · exact absurd same strict
      · by_cases last : other = up
        · rw [last, folder]
        · exact ih folder above last

/-- The location that a path without double dots names. -/
def spot (fs : FileStore) (p : FilePath) : Location := p.start fs.cwd ++ p.parts

/-- Whether a path can be looked for: some store can have it, and neither it nor any of its
names is too long. -/
structure Searchable (p : FilePath) : Prop where
  clean : p.isBarred = false
  short : isPathTooLong p = false
  names : ∀ part ∈ p.parts, isTooLong part = false

/-- A path is at least as long as what leads to its folders. -/
theorem utf8ByteSize_text_le {q : FilePath} (root : q.root = p.root) (above : q.parts <+: p.parts) :
    q.text.utf8ByteSize ≤ p.text.utf8ByteSize := by
  have full (r : FilePath) :
      r.text.utf8ByteSize = max 1 (r.root ++ "/".intercalate r.parts).utf8ByteSize := by
    rw [text]
    by_cases empty : r.root ++ "/".intercalate r.parts = ""
    · simp only [empty, beq_self_eq_true, if_true]
      rfl
    · have some : (r.root ++ "/".intercalate r.parts).utf8ByteSize ≠ 0 :=
        mt String.utf8ByteSize_eq_zero_iff.mp empty
      simp only [beq_iff_eq, empty, if_false]
      omega
  have joined : ("/".intercalate q.parts).utf8ByteSize ≤
      ("/".intercalate p.parts).utf8ByteSize := by
    obtain ⟨more, same⟩ := above
    rw [← same]
    by_cases none : q.parts = []
    · simp [none]
    · by_cases last : more = []
      · simp [last]
      · rw [String.intercalate_append_of_ne_nil none last, String.utf8ByteSize_append,
          String.utf8ByteSize_append]
        omega
  rw [full, full, String.utf8ByteSize_append, String.utf8ByteSize_append, root]
  omega

theorem Searchable.of_prefix {q : FilePath} (searchable : Searchable p) (root : q.root = p.root)
    (above : q.parts <+: p.parts) : Searchable q := by
  refine ⟨?_, ?_, fun part hp => searchable.names part (above.subset hp)⟩
  · have clean := searchable.clean
    rw [FilePath.isBarred, List.any_eq_false] at clean ⊢
    exact fun part hp => clean part (above.subset hp)
  · have short := searchable.short
    have le := utf8ByteSize_text_le root above
    rw [isPathTooLong, decide_eq_false_iff_not] at short ⊢
    omega

theorem walk_eq_ok_of_notMem (down : ".." ∉ parts) (h : fs.walk at_ parts = .ok other) :
    (∀ part ∈ parts, isTooLong part = false) ∧
      (parts ≠ [] → fs.node? (at_ ++ parts).dropLast = some .folder) := by
  fun_induction walk fs at_ parts with
  | case1 => simp
  | case2 => cases h
  | case3 => cases h
  | case4 => cases h
  | case5 at_ part rest folder short ih =>
      rw [List.mem_cons, not_or] at down
      rw [descend_of_ne (Ne.symm down.1)] at ih h
      obtain ⟨names, last⟩ := ih down.2 h
      refine ⟨fun name hn => ?_, fun _ => ?_⟩
      · rcases List.mem_cons.mp hn with rfl | hn
        · simpa using short
        · exact names name hn
      · by_cases done : rest = []
        · simpa [done] using folder
        · simpa using last done

/-- A way without files and long names leads to its end, or ends where nothing is. -/
theorem walk_of_open (down : ".." ∉ parts) (names : ∀ part ∈ parts, isTooLong part = false)
    (way : ∀ other, other <+: at_ ++ parts →
      fs.node? other = none ∨ fs.node? other = some .folder) :
    fs.walk at_ parts = .ok (at_ ++ parts) ∨ fs.walk at_ parts = .error .missing := by
  induction parts generalizing at_ with
  | nil => simp [walk]
  | cons part rest ih =>
      rw [List.mem_cons, not_or] at down
      rw [walk, descend_of_ne (Ne.symm down.1), names part List.mem_cons_self]
      rcases way at_ (List.prefix_append _ _) with none | folder
      · simp [none]
      · have onward : ∀ other, other <+: (at_ ++ [part]) ++ rest →
            fs.node? other = none ∨ fs.node? other = some .folder := by simpa using way
        have further := ih down.2 (fun name hn => names name (List.mem_cons_of_mem _ hn)) onward
        simpa [folder] using further

/-- Plain names are found at once if their folder is there. -/
theorem direct?_eq_some_iff (down : ".." ∉ parts) : fs.direct? at_ parts = some other ↔
    (parts ≠ [] ∧ (∀ part ∈ parts, isTooLong part = false) ∧
      fs.node? (at_ ++ parts).dropLast = some .folder) ∧ other = at_ ++ parts := by
  cases parts with
  | nil => simp [direct?]
  | cons part rest =>
      have plain : ((part :: rest).all fun part => part != ".." && !isTooLong part) = true ↔
          ∀ name ∈ part :: rest, isTooLong name = false := by
        rw [List.all_eq_true]
        refine forall₂_congr fun name hn => ?_
        have forward : name ≠ ".." := fun dots => down (dots ▸ hn)
        simp [forward]
      unfold direct?
      dsimp only
      by_cases names : ∀ name ∈ part :: rest, isTooLong name = false
      · rw [if_pos (plain.mpr names)]
        constructor
        · intro h
          split at h
          next folder =>
            exact ⟨⟨List.cons_ne_nil part rest, names, folder⟩, (Option.some.inj h).symm⟩
          next => cases h
        · rintro ⟨⟨-, -, folder⟩, rfl⟩
          rw [folder]
      · rw [if_neg (mt plain.mp names)]
        exact ⟨nofun, fun h => absurd h.1.2.1 names⟩

/-- A path is found exactly if it can be looked for and its folder is there. -/
theorem locate_eq_ok_iff (down : ".." ∉ p.parts) : fs.locate p = .ok at_ ↔
    (Searchable p ∧ (p.parts ≠ [] → fs.node? (fs.spot p).dropLast = some .folder)) ∧
      at_ = fs.spot p := by
  have start : (if p.isAbsolute then [] else fs.cwd) = p.start fs.cwd := rfl
  rw [locate, start]
  constructor
  · intro h
    split at h
    · cases h
    next clean =>
      split at h
      · cases h
      next short =>
        dsimp only at h
        split at h
        next found =>
          obtain rfl := Except.ok.inj h
          obtain ⟨⟨-, names, last⟩, same⟩ := (direct?_eq_some_iff down).mp found
          exact ⟨⟨⟨by simpa using clean, by simpa using short, names⟩, fun _ => last⟩, same⟩
        next =>
          obtain ⟨names, last⟩ := walk_eq_ok_of_notMem down h
          refine ⟨⟨⟨by simpa using clean, by simpa using short, names⟩, last⟩, ?_⟩
          rw [walk_eq_ok h, foldl_descend_of_notMem down, spot]
  · rintro ⟨⟨⟨clean, short, names⟩, last⟩, rfl⟩
    rw [if_neg (by simp [clean]), if_neg (by simp [short])]
    by_cases none : p.parts = []
    · simp [none, direct?, walk, spot]
    · have found := (direct?_eq_some_iff down).mpr ⟨⟨none, names, last none⟩, rfl⟩
      simp only [found, spot]

/-- A way without files and long names is found, or nothing is where its end would be. -/
theorem locate_of_open (down : ".." ∉ p.parts) (searchable : Searchable p)
    (way : ∀ other, other <+: fs.spot p →
      fs.node? other = none ∨ fs.node? other = some .folder) :
    fs.locate p = .ok (fs.spot p) ∨ fs.locate p = .error .missing := by
  have start : (if p.isAbsolute then [] else fs.cwd) = p.start fs.cwd := rfl
  rw [locate, start, if_neg (by simp [searchable.clean]), if_neg (by simp [searchable.short])]
  dsimp only
  split
  next found => exact .inl (by rw [((direct?_eq_some_iff down).mp found).2, spot])
  next => exact walk_of_open down searchable.names way

theorem makeFolder_of_locate (found : fs.locate p = .ok at_) :
    fs.makeFolder p =
      if (fs.node? at_).isSome then .error .exists else .ok (fs.put at_ .folder) := by
  rw [makeFolder, found]
  rfl

theorem makeFolder_of_locate_eq_error {e : AccessError} (lost : fs.locate p = .error e) :
    fs.makeFolder p = .error e := by
  rw [makeFolder, lost]
  rfl

/-- Whether a folder can be made, or is there, at a path: the path is found and no file
stands there. -/
structure Ready (fs : FileStore) (p : FilePath) : Prop where
  searchable : Searchable p
  last : p.parts ≠ [] → fs.node? (fs.spot p).dropLast = some .folder
  vacant : fs.node? (fs.spot p) = none ∨ fs.node? (fs.spot p) = some .folder

/-- Whether a store is another one in which the way to a location is made of folders. -/
structure LeadsTo (place : Location) (fs fs' : FileStore) : Prop where
  cwd : fs'.cwd = fs.cwd
  node?_eq : ∀ other,
    fs'.node? other = if other <+: place then some .folder else fs.node? other

namespace LeadsTo

theorem isTree (way : LeadsTo place fs fs') (tree : fs.IsTree) : fs'.IsTree := by
  intro at_ node strict there
  rw [way.node?_eq] at there ⊢
  split
  next => rfl
  next outside =>
    rw [if_neg fun above => outside ((List.dropLast_prefix at_).trans above)] at there
    exact tree at_ node strict there

theorem spot_eq (way : LeadsTo place fs fs') (p : FilePath) : fs'.spot p = fs.spot p := by
  rw [spot, spot, way.cwd]

theorem node?_start (way : LeadsTo place fs fs')
    (start : fs.node? (p.start fs.cwd) = some .folder) :
    fs'.node? (p.start fs'.cwd) = some .folder := by
  rw [way.cwd, way.node?_eq, start, ite_self]

theorem trans (first : LeadsTo place fs fs') (second : LeadsTo at_ fs' fs'')
    (further : place <+: at_) : LeadsTo at_ fs fs'' := by
  refine ⟨second.cwd.trans first.cwd, fun other => ?_⟩
  rw [second.node?_eq, first.node?_eq]
  by_cases above : other <+: at_
  · rw [if_pos above, if_pos above]
  · rw [if_neg above, if_neg above, if_neg fun h => above (h.trans further)]

end LeadsTo

/-- A folder is made, or is there, exactly if the path is ready for it. -/
theorem ensureFolder_of_ready (tree : fs.IsTree) (down : ".." ∉ p.parts)
    (start : fs.node? (p.start fs.cwd) = some .folder) (ready : Ready fs p) :
    ∃ fs', fs.ensureFolder p = (.ok (), fs') ∧ LeadsTo (fs.spot p) fs fs' := by
  have found : fs.locate p = .ok (fs.spot p) :=
    (locate_eq_ok_iff down).mpr ⟨⟨ready.searchable, ready.last⟩, rfl⟩
  rcases ready.vacant with none | folder
  · have made : fs.makeFolder p = .ok (fs.put (fs.spot p) .folder) := by
      simp [makeFolder_of_locate found, none]
    have named : p.parts ≠ [] := by
      intro empty
      rw [spot, empty, List.append_nil, start] at none
      cases none
    have inside : fs.spot p ≠ [] := by simp [spot, named]
    refine ⟨fs.put (fs.spot p) .folder, by simp [ensureFolder, made], cwd_put _ _ _, ?_⟩
    intro other
    rw [node?_put inside]
    by_cases same : other = fs.spot p
    · simp [same]
    · rw [if_neg same]
      split
      next above =>
        have holder := ready.last named
        rcases (prefix_iff_eq_or_dropLast inside).mp above with above | above
        · exact absurd above same
        · by_cases last : other = (fs.spot p).dropLast
          · rw [last, holder]
          · exact tree.folder_of_prefix holder above last
      next => rfl
  · have made : fs.makeFolder p = .error .exists := by
      simp [makeFolder_of_locate found, folder]
    have there : fs.hasFolder p = true := by
      simp [hasFolder, at?, found, Except.map, folder, Node.isFolder]
    refine ⟨fs, by simp [ensureFolder, made, there], rfl, fun other => ?_⟩
    split
    next above =>
      by_cases same : other = fs.spot p
      · rw [same, folder]
      · exact tree.folder_of_prefix folder above same
    next => rfl

theorem ready_of_ensureFolder (down : ".." ∉ p.parts)
    (made : (fs.ensureFolder p).1 = .ok ()) : Ready fs p := by
  unfold ensureFolder at made
  split at made
  next made' =>
    cases found : fs.locate p with
    | error e =>
        rw [makeFolder_of_locate_eq_error found] at made'
        cases made'
    | ok at_ =>
        obtain ⟨⟨searchable, last⟩, rfl⟩ := (locate_eq_ok_iff down).mp found
        rw [makeFolder_of_locate found] at made'
        split at made'
        · cases made'
        next none => exact ⟨searchable, last, .inl (by simpa using none)⟩
  next =>
    split at made
    next there =>
      cases found : fs.locate p with
      | error e => simp [hasFolder, at?, found, Except.map] at there
      | ok at_ =>
          obtain ⟨⟨searchable, last⟩, rfl⟩ := (locate_eq_ok_iff down).mp found
          refine ⟨searchable, last, .inr ?_⟩
          rw [hasFolder, at?, found] at there
          rcases node : fs.node? (fs.spot p) with _ | ⟨_ | _⟩
          · simp [Except.map, node] at there
          · simp [Except.map, node, Node.isFolder] at there
          · rfl
    · cases made

/-- Whether nothing stands in the way of making the folders of a path. -/
structure Passable (fs : FileStore) (p : FilePath) : Prop where
  searchable : Searchable p
  way : ∀ other, other <+: fs.spot p →
    fs.node? other = none ∨ fs.node? other = some .folder

theorem Ready.passable (ready : Ready fs p) (tree : fs.IsTree)
    (start : fs.node? (p.start fs.cwd) = some .folder) : Passable fs p := by
  refine ⟨ready.searchable, fun other above => ?_⟩
  by_cases same : other = fs.spot p
  · exact same ▸ ready.vacant
  · by_cases named : p.parts = []
    · rw [spot, named, List.append_nil] at above same
      exact .inr (tree.folder_of_prefix start above same)
    · have inside : fs.spot p ≠ [] := by simp [spot, named]
      rcases (prefix_iff_eq_or_dropLast inside).mp above with above | above
      · exact absurd above same
      · by_cases last : other = (fs.spot p).dropLast
        · exact .inr (last ▸ ready.last named)
        · exact .inr (tree.folder_of_prefix (ready.last named) above last)

theorem Passable.of_prefix {q : FilePath} (passable : Passable fs p) (root : q.root = p.root)
    (above : q.parts <+: p.parts) : Passable fs q := by
  refine ⟨passable.searchable.of_prefix root above, fun other further => passable.way other ?_⟩
  have same : q.start fs.cwd = p.start fs.cwd := by rw [start, start, isAbsolute, isAbsolute, root]
  rw [spot, same] at further
  exact further.trans ((List.prefix_append_right_inj _).mpr above)

variable {root : String} {depth : Nat}

/-- The folder of the first parts of a path is what one part less leads to. -/
theorem spot_take_succ (fs : FileStore) (root : String) (inside : depth < parts.length) :
    fs.spot ⟨root, parts.take (depth + 1)⟩ ≠ [] ∧
      (fs.spot ⟨root, parts.take (depth + 1)⟩).dropLast = fs.spot ⟨root, parts.take depth⟩ := by
  have split : fs.spot ⟨root, parts.take (depth + 1)⟩ =
      fs.spot ⟨root, parts.take depth⟩ ++ [parts[depth]] := by
    rw [spot, spot, List.take_succ_eq_append_getElem inside, ← List.append_assoc]
    rfl
  rw [split, List.dropLast_concat]
  exact ⟨by simp, rfl⟩

/-- The folders of a passable path are made from the first one that is missing on. -/
theorem ensureFoldersTo_of_passable (tree : fs.IsTree) (down : ".." ∉ parts)
    (start : fs.node? (FilePath.start fs.cwd ⟨root, parts⟩) = some .folder)
    (passable : Passable fs ⟨root, parts.take depth⟩) (inside : depth ≤ parts.length) :
    ∃ fs', ensureFoldersTo root parts depth fs = (.ok (), fs') ∧
      LeadsTo (fs.spot ⟨root, parts.take depth⟩) fs fs' := by
  induction depth with
  | zero =>
      have ready : Ready fs ⟨root, []⟩ := by
        refine ⟨passable.searchable, fun named => absurd rfl named, .inr ?_⟩
        rw [spot, List.append_nil]
        exact start
      exact ensureFolder_of_ready tree (by simp) start ready
  | succ depth ih =>
      have shorter : parts.take depth <+: parts.take (depth + 1) :=
        List.take_prefix_take_left (Nat.le_succ depth)
      have down' : ".." ∉ parts.take (depth + 1) := fun dots => down (List.mem_of_mem_take dots)
      obtain ⟨named, holder⟩ := spot_take_succ fs root inside
      unfold ensureFoldersTo
      dsimp only
      rcases passable.way (fs.spot ⟨root, parts.take depth⟩)
          (by rw [← holder]; exact List.dropLast_prefix _) with none | folder
      · have lost : fs.locate ⟨root, parts.take (depth + 1)⟩ = .error .missing := by
          refine (locate_of_open down' passable.searchable passable.way).resolve_left ?_
          intro found
          obtain ⟨⟨-, last⟩, -⟩ := (locate_eq_ok_iff down').mp found
          have there := last (by simp [List.ne_nil_of_length_pos (Nat.zero_lt_of_lt inside)])
          rw [holder, none] at there
          cases there
        rw [makeFolder_of_locate_eq_error lost]
        obtain ⟨between, made, above⟩ := ih (passable.of_prefix rfl shorter) (Nat.le_of_lt inside)
        rw [made]
        dsimp only
        have start' := above.node?_start (p := ⟨root, parts.take (depth + 1)⟩) start
        have ready : Ready between ⟨root, parts.take (depth + 1)⟩ := by
          refine ⟨passable.searchable, fun _ => ?_, ?_⟩
          · rw [above.spot_eq, holder, above.node?_eq, if_pos (List.prefix_refl _)]
          · rw [above.spot_eq, above.node?_eq, if_neg (holder ▸ not_prefix_dropLast named)]
            exact passable.way _ (List.prefix_refl _)
        obtain ⟨fs', done, below⟩ := ensureFolder_of_ready (above.isTree tree) down' start' ready
        rw [above.spot_eq] at below
        exact ⟨fs', done, above.trans below (holder ▸ List.dropLast_prefix _)⟩
      · have ready : Ready fs ⟨root, parts.take (depth + 1)⟩ :=
          ⟨passable.searchable, fun _ => holder.symm ▸ folder, passable.way _ (List.prefix_refl _)⟩
        have found : fs.locate ⟨root, parts.take (depth + 1)⟩ = .ok _ :=
          (locate_eq_ok_iff down').mpr ⟨⟨ready.searchable, ready.last⟩, rfl⟩
        obtain ⟨fs', done, below⟩ :=
          ensureFolder_of_ready (p := ⟨root, parts.take (depth + 1)⟩) tree down' start ready
        refine ⟨fs', ?_, below⟩
        rw [makeFolder_of_locate found]
        split
        next missing => split at missing <;> cases missing
        next => exact done

/-- If the folders of a path are made, it was passable. -/
theorem passable_of_ensureFoldersTo (tree : fs.IsTree) (down : ".." ∉ parts)
    (start : fs.node? (FilePath.start fs.cwd ⟨root, parts⟩) = some .folder)
    (inside : depth ≤ parts.length)
    (made : (ensureFoldersTo root parts depth fs).1 = .ok ()) :
    Passable fs ⟨root, parts.take depth⟩ := by
  induction depth with
  | zero => exact (ready_of_ensureFolder (by simp) made).passable tree start
  | succ depth ih =>
      have down' : ".." ∉ parts.take (depth + 1) := fun dots => down (List.mem_of_mem_take dots)
      obtain ⟨named, holder⟩ := spot_take_succ fs root inside
      unfold ensureFoldersTo at made
      dsimp only at made
      split at made
      · cases first : ensureFoldersTo root parts depth fs with
        | mk outcome between =>
            cases outcome with
            | error f =>
                rw [first] at made
                cases made
            | ok _ =>
                rw [first] at made
                have passable := ih (Nat.le_of_lt inside) (by rw [first])
                obtain ⟨_, again, above⟩ :=
                  ensureFoldersTo_of_passable tree down start passable (Nat.le_of_lt inside)
                obtain ⟨-, rfl⟩ := Prod.mk.inj (first.symm.trans again)
                have ready := ready_of_ensureFolder down' made
                refine ⟨ready.searchable, fun other further => ?_⟩
                rcases (prefix_iff_eq_or_dropLast named).mp further with rfl | further
                · have vacant := ready.vacant
                  rwa [above.spot_eq, above.node?_eq,
                    if_neg (holder ▸ not_prefix_dropLast named)] at vacant
                · exact passable.way other (holder ▸ further)
      · exact (ready_of_ensureFolder (p := ⟨root, parts.take (depth + 1)⟩) down' made).passable
          tree start

/-- The folders of a path are made exactly if nothing stands in their way. -/
theorem ensureFolders_of_passable (tree : fs.IsTree) (down : ".." ∉ p.parts)
    (start : fs.node? (p.start fs.cwd) = some .folder) (passable : Passable fs p) :
    ∃ fs', fs.ensureFolders p = (.ok (), fs') ∧ LeadsTo (fs.spot p) fs fs' := by
  have all : p.parts.take p.parts.length = p.parts := List.take_length
  have whole : Passable fs ⟨p.root, p.parts.take p.parts.length⟩ := by
    rw [all]
    exact passable
  have made := ensureFoldersTo_of_passable tree down start whole (Nat.le_refl _)
  rwa [all] at made

theorem passable_of_ensureFolders (tree : fs.IsTree) (down : ".." ∉ p.parts)
    (start : fs.node? (p.start fs.cwd) = some .folder)
    (made : (fs.ensureFolders p).1 = .ok ()) : Passable fs p := by
  have passable := passable_of_ensureFoldersTo tree down start (Nat.le_refl _) made
  rwa [List.take_length] at passable

/-- Whether a file can be written at a path: the way to its folder can be made, its
temporary neighbour can be named, and no folder stands in its place. -/
structure Writable (fs : FileStore) (p : FilePath) : Prop where
  way : Passable fs p.parent
  temporary : isTooLong (temporaryName p.name 0) = false
  neighbour :
    isPathTooLong ((p.parent.absolute fs.cwd).child (temporaryName p.name 0)) = false
  place : fs.node? (fs.spot p) ≠ some .folder

/-- Whether a store is another one with a file at a location and folders on the way. -/
structure Gains (place : Location) (content : ByteArray) (fs fs' : FileStore) : Prop where
  cwd : fs'.cwd = fs.cwd
  node?_eq : ∀ other, fs'.node? other =
    if other = place then some (.file content)
    else if other <+: place.dropLast then some .folder
    else fs.node? other

theorem temporaryName_ne (name : String) (n : Nat) : temporaryName name n ≠ name := by
  intro same
  have length := congrArg String.length same
  simp only [temporaryName, String.length_append] at length
  have dot : ".".length = 1 := rfl
  omega

variable {content : ByteArray}

theorem spot_eq_parent (named : p.parts ≠ []) (fs : FileStore) :
    fs.spot p = fs.spot p.parent ++ [p.name] := by
  have last : p.parts = p.parts.dropLast ++ [p.name] := by
    rw [FilePath.name, List.getLast?_eq_some_getLast named, Option.getD_some,
      List.dropLast_concat_getLast]
  rw [spot, last, ← List.append_assoc]
  rfl

/-- A write by way of a free neighbour ends with the file in its place, unless a name is
too long or a folder stands there. -/
theorem write_of_folder (named : p.parts ≠ []) (down : ".." ∉ p.parts)
    (made : fs.ensureFolders p.parent = (.ok (), fs')) (above : LeadsTo (fs.spot p.parent) fs fs')
    (searchable : Searchable p.parent)
    (free : fs.node? (fs.spot p.parent ++ [temporaryName p.name 0]) = none) :
    ((fs.write p (some content)).1 = .ok () ↔ isTooLong (temporaryName p.name 0) = false ∧
      isPathTooLong ((p.parent.absolute fs.cwd).child (temporaryName p.name 0)) = false ∧
      fs.node? (fs.spot p) ≠ some .folder) ∧
    ((fs.write p (some content)).1 = .ok () →
      Gains (fs.spot p) content fs (fs.write p (some content)).2) := by
  have below (name : String) : ¬ fs.spot p.parent ++ [name] <+: fs.spot p.parent := by
    intro further
    have length := further.length_le
    rw [List.length_append, List.length_singleton] at length
    omega
  have kept (name : String) :
      fs'.node? (fs.spot p.parent ++ [name]) = fs.node? (fs.spot p.parent ++ [name]) := by
    rw [above.node?_eq, if_neg (below name)]
  have found : fs'.locate p.parent = .ok (fs.spot p.parent) := by
    refine (locate_eq_ok_iff fun dots => down (List.dropLast_subset _ dots)).mpr
      ⟨⟨searchable, fun _ => ?_⟩, (above.spot_eq p.parent).symm⟩
    rw [above.spot_eq, above.node?_eq, if_pos (List.dropLast_prefix _)]
  have fresh : fs'.freshName (fs.spot p.parent) p.name (fs'.nodes.length + 1) 0 =
      temporaryName p.name 0 := by
    simp [freshName, kept, free]
  have target : (fs'.put (fs.spot p.parent ++ [temporaryName p.name 0]) (.file content)).node?
      (fs.spot p.parent ++ [p.name]) = fs.node? (fs.spot p) := by
    rw [node?_put (by simp), if_neg (by simp [(temporaryName_ne p.name 0).symm]), kept,
      spot_eq_parent named]
  rw [write, made]
  simp only [found, fresh, above.cwd, target]
  cases long : isTooLong (temporaryName p.name 0) ||
      isPathTooLong ((p.parent.absolute fs.cwd).child (temporaryName p.name 0)) with
  | true =>
      refine ⟨⟨fun done => ?_, fun can => ?_⟩, fun done => ?_⟩
      · cases done
      · simp [can.1, can.2.1] at long
      · cases done
  | false =>
      obtain ⟨short, fits⟩ := Bool.or_eq_false_iff.mp long
      simp only [Bool.false_eq_true, if_false]
      by_cases folder : fs.node? (fs.spot p) = some .folder
      · simp only [folder]
        refine ⟨⟨fun done => ?_, fun can => absurd rfl can.2.2⟩, fun done => ?_⟩
        · cases done
        · cases done
      · split
        next there => exact absurd there folder
        next =>
          refine ⟨⟨fun _ => ⟨short, fits, folder⟩, fun _ => rfl⟩, fun _ => ⟨?_, ?_⟩⟩
          · simp [above.cwd]
          · intro other
            rw [node?_erase (by simp), node?_put (by simp), node?_put (by simp), above.node?_eq,
              spot_eq_parent named, List.dropLast_concat]
            by_cases temporary : other = fs.spot p.parent ++ [temporaryName p.name 0]
            · rw [if_pos temporary, if_neg, if_neg, temporary, free]
              · rw [temporary]
                exact below _
              · rw [temporary]
                simp [temporaryName_ne]
            · rw [if_neg temporary, if_neg temporary]

/-- A file is written exactly if it can be. -/
theorem write_eq_ok_iff (tree : fs.IsTree) (named : p.parts ≠ []) (down : ".." ∉ p.parts)
    (start : fs.node? (p.start fs.cwd) = some .folder)
    (free : fs.node? (fs.spot p.parent ++ [temporaryName p.name 0]) = none) :
    (fs.write p (some content)).1 = .ok () ↔ Writable fs p := by
  have down' : ".." ∉ p.parent.parts := fun dots => down (List.dropLast_subset _ dots)
  constructor
  · intro written
    have passable : Passable fs p.parent := by
      refine passable_of_ensureFolders tree down' start ?_
      cases made : fs.ensureFolders p.parent with
      | mk outcome between =>
          cases outcome with
          | ok _ => rfl
          | error f =>
              rw [write, made] at written
              cases written
    obtain ⟨between, made, above⟩ := ensureFolders_of_passable tree down' start passable
    obtain ⟨temporary, neighbour, place⟩ :=
      (write_of_folder named down made above passable.searchable free).1.mp written
    exact ⟨passable, temporary, neighbour, place⟩
  · intro writable
    obtain ⟨between, made, above⟩ := ensureFolders_of_passable tree down' start writable.way
    exact (write_of_folder named down made above writable.way.searchable free).1.mpr
      ⟨writable.temporary, writable.neighbour, writable.place⟩

/-- A file that can be written is there, folders lead to it, and everything else is as
before. -/
theorem gains_of_writable (tree : fs.IsTree) (named : p.parts ≠ []) (down : ".." ∉ p.parts)
    (start : fs.node? (p.start fs.cwd) = some .folder)
    (free : fs.node? (fs.spot p.parent ++ [temporaryName p.name 0]) = none)
    (writable : Writable fs p) (content : ByteArray) :
    ∃ fs', fs.write p (some content) = (.ok (), fs') ∧ Gains (fs.spot p) content fs fs' := by
  have down' : ".." ∉ p.parent.parts := fun dots => down (List.dropLast_subset _ dots)
  obtain ⟨between, made, above⟩ := ensureFolders_of_passable tree down' start writable.way
  obtain ⟨ends, gains⟩ : ((fs.write p (some content)).1 = .ok () ↔ _) ∧ _ :=
    write_of_folder named down made above writable.way.searchable free
  have written := ends.mpr ⟨writable.temporary, writable.neighbour, writable.place⟩
  exact ⟨_, Prod.ext written rfl, gains written⟩

end FileStore

end ClientForge
