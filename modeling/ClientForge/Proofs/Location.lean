import ClientForge.Proofs.Run

/-!
# Where accesses land

A path leads, if it leads anywhere, to the location that its parts name one after
another, a double dot taking back the part before it. What an access does to the store
it does there: a file that is written and a tree that is taken away leave every location
outside alone, but for folders that are made where nothing was.
-/

namespace ClientForge

theorem FileStore.descend_of_ne {part : String} (plain : part ≠ "..") (at_ : Location) :
    descend at_ part = at_ ++ [part] := by
  simp [descend, plain]

namespace FilePath

open FileStore (descend descend_of_ne)

variable {p q : FilePath} {at_ cwd : Location} {parts : List String}

/-- Without double dots a walk goes down. -/
theorem foldl_descend_of_notMem (plain : ".." ∉ parts) (at_ : Location) :
    parts.foldl descend at_ = at_ ++ parts := by
  induction parts generalizing at_ with
  | nil => simp
  | cons part rest ih =>
      rw [List.mem_cons, not_or] at plain
      rw [List.foldl_cons, ih plain.2, descend_of_ne (Ne.symm plain.1), List.append_assoc,
        List.singleton_append]

theorem normalParts_eq_foldl (parts : List String) : normalParts parts = parts.foldl descend [] :=
  rfl

theorem normalParts_of_notMem (plain : ".." ∉ parts) : normalParts parts = parts := by
  rw [normalParts_eq_foldl, foldl_descend_of_notMem plain, List.nil_append]

/-- Where a path leads as seen from a folder: the parts of its absolute form. -/
def place (cwd : Location) (p : FilePath) : Location := (p.absolute cwd).parts

/-- The location that a path starts from. -/
def start (cwd : Location) (p : FilePath) : Location := if p.isAbsolute then [] else cwd

theorem place_eq_foldl (plain : ".." ∉ cwd) (p : FilePath) :
    p.place cwd = p.parts.foldl descend (p.start cwd) := by
  rw [place, absolute, start]
  cases p.isAbsolute with
  | true => rfl
  | false =>
      simp only [Bool.false_eq_true, if_false, normalParts_eq_foldl, List.foldl_append]
      rw [foldl_descend_of_notMem plain, List.nil_append]

/-- A path without double dots leads straight down. -/
theorem place_of_notMem (plain : ".." ∉ cwd) (down : ".." ∉ p.parts) :
    p.place cwd = p.start cwd ++ p.parts := by
  rw [place_eq_foldl plain, foldl_descend_of_notMem down]

/-- Parts without double dots lead down from where a path leads. -/
theorem place_append (plain : ".." ∉ cwd) (down : ".." ∉ parts) :
    place cwd ⟨p.root, p.parts ++ parts⟩ = p.place cwd ++ parts := by
  have same : start cwd ⟨p.root, p.parts ++ parts⟩ = p.start cwd := rfl
  rw [place_eq_foldl plain, place_eq_foldl plain, List.foldl_append,
    foldl_descend_of_notMem down, same]

end FilePath

namespace FileStore

open FilePath

variable {fs fs' fs'' : FileStore} {p : FilePath} {at_ other base : Location} {node : Node}

@[simp] theorem node?_nil (fs : FileStore) : fs.node? [] = some .folder := rfl

@[simp] theorem cwd_put (at_ : Location) (node : Node) (fs : FileStore) :
    (fs.put at_ node).cwd = fs.cwd := by
  unfold put
  split <;> rfl

@[simp] theorem cwd_erase (at_ : Location) (fs : FileStore) : (fs.erase at_).cwd = fs.cwd := rfl

@[simp] theorem cwd_eraseBelow (at_ : Location) (fs : FileStore) :
    (fs.eraseBelow at_).cwd = fs.cwd := rfl

theorem node?_of_ne_nil (h : at_ ≠ []) (fs : FileStore) :
    fs.node? at_ = (fs.nodes.find? (·.1 == at_)).map (·.2) := by
  simp [node?, h]

/-- What is put at a location is there, and nothing else changes. -/
theorem node?_put (h : at_ ≠ []) (node : Node) (fs : FileStore) (other : Location) :
    (fs.put at_ node).node? other = if other = at_ then some node else fs.node? other := by
  by_cases root : other = []
  · simp [root, Ne.symm h]
  rw [node?_of_ne_nil root, node?_of_ne_nil root]
  unfold put
  split
  next there =>
    have found (l : List (Location × Node)) (hl : other = at_ → l.any (·.1 == at_) = true) :
        ((l.map fun e => if e.1 == at_ then (at_, node) else e).find? (·.1 == other)).map (·.2) =
          if other = at_ then some node else (l.find? (·.1 == other)).map (·.2) := by
      induction l with
      | nil =>
          rw [if_neg fun same => by simpa using hl same]
          rfl
      | cons e l ih =>
          by_cases he : e.1 = at_
          · by_cases same : other = at_
            · simp [he, same]
            · have rest := ih fun h => absurd h same
              rw [if_neg same] at rest ⊢
              simpa [he, Ne.symm same] using rest
          · by_cases same : e.1 = other
            · subst same
              simp [he]
            · simpa [he, same] using ih fun h => by simpa [he] using hl h
    exact found fs.nodes fun _ => there
  next absent =>
    rw [List.find?_append, Option.map_or]
    by_cases same : other = at_
    · subst same
      have none : fs.nodes.find? (·.1 == other) = none := by
        rw [List.find?_eq_none]
        exact fun e he same => absent (List.any_eq_true.mpr ⟨e, he, same⟩)
      simp [none]
    · simp [same, Ne.symm same]

/-- A filter that keeps every entry of a location keeps what is there. -/
theorem node?_filter {keep : Location × Node → Bool} (h : ∀ node, keep (other, node) = true) :
    node? ⟨fs.nodes.filter keep, fs.cwd⟩ other = fs.node? other := by
  by_cases root : other = []
  · simp [root]
  have same : (fun e : Location × Node => decide (keep e = true ∧ (e.1 == other) = true)) =
      fun e => e.1 == other := by
    funext e
    by_cases he : e.1 = other
    · subst he
      simp [h e.2]
    · simp [he]
  rw [node?_of_ne_nil root, node?_of_ne_nil root, List.find?_filter, same]

/-- A filter that drops every entry of a location leaves nothing there. -/
theorem node?_filter_eq_none {keep : Location × Node → Bool} (root : other ≠ [])
    (h : ∀ node, keep (other, node) = false) :
    node? ⟨fs.nodes.filter keep, fs.cwd⟩ other = none := by
  have none : (fs.nodes.filter keep).find? (·.1 == other) = none := by
    rw [List.find?_eq_none]
    rintro ⟨l, n⟩ member same
    obtain rfl : l = other := by simpa using same
    simp [h n] at member
  rw [node?_of_ne_nil root, none, Option.map_none]

theorem node?_erase (h : at_ ≠ []) (fs : FileStore) (other : Location) :
    (fs.erase at_).node? other = if other = at_ then none else fs.node? other := by
  split
  next same =>
    subst same
    exact node?_filter_eq_none h fun node => by simp
  next different => exact node?_filter fun node => by simpa using different

theorem node?_eraseBelow (at_ : Location) (fs : FileStore) (other : Location) :
    (fs.eraseBelow at_).node? other =
      if at_ <+: other ∧ other ≠ at_ then none else fs.node? other := by
  split
  next below =>
    refine node?_filter_eq_none ?_ fun node => by simp [below]
    rintro rfl
    exact below.2 (List.prefix_nil.mp below.1).symm
  next outside =>
    refine node?_filter fun node => ?_
    rw [Bool.not_eq_true', Bool.and_eq_false_iff, ← Bool.not_eq_true, List.isPrefixOf_iff_prefix]
    exact (not_and_or.mp outside).imp_right fun same => by simpa using same

/-- A walk ends where its parts lead. -/
theorem walk_eq_ok {parts : List String} (h : fs.walk at_ parts = .ok other) :
    other = parts.foldl descend at_ := by
  fun_induction walk fs at_ parts with
  | case1 => exact (Except.ok.inj h).symm
  | case2 => cases h
  | case3 => cases h
  | case4 => cases h
  | case5 _ _ _ _ _ ih => exact ih h

theorem direct?_eq_some {parts : List String} (h : fs.direct? at_ parts = some other) :
    other = parts.foldl descend at_ := by
  unfold direct? at h
  cases parts with
  | nil => cases h
  | cons part rest =>
      dsimp only at h
      split at h
      next names =>
        have plain : ".." ∉ part :: rest := by
          intro double
          simpa using List.all_eq_true.mp names _ double
        split at h
        · rw [foldl_descend_of_notMem plain]
          exact (Option.some.inj h).symm
        · cases h
      next => cases h

/-- A path that leads to a location leads to its place. -/
theorem place_of_locate (plain : ".." ∉ fs.cwd) (h : fs.locate p = .ok at_) :
    at_ = p.place fs.cwd := by
  rw [place_eq_foldl plain]
  unfold locate at h
  split at h
  · cases h
  · split at h
    · cases h
    · dsimp only at h
      split at h
      next found =>
        obtain rfl := Except.ok.inj h
        exact direct?_eq_some found
      next => exact walk_eq_ok h

/-- Every location outside of a folder is as before, unless nothing was there and a folder
is there now. -/
structure Spares (base : Location) (fs fs' : FileStore) : Prop where
  cwd : fs'.cwd = fs.cwd
  kept : ∀ at_, ¬ base <+: at_ →
    fs'.node? at_ = fs.node? at_ ∨ (fs.node? at_ = none ∧ fs'.node? at_ = some .folder)

namespace Spares

theorem refl (base : Location) (fs : FileStore) : Spares base fs fs :=
  ⟨rfl, fun _ _ => .inl rfl⟩

theorem trans (first : Spares base fs fs') (second : Spares base fs' fs'') :
    Spares base fs fs'' := by
  refine ⟨second.cwd.trans first.cwd, fun at_ outside => ?_⟩
  rcases first.kept at_ outside with same | ⟨none, made⟩
  · simpa only [same] using second.kept at_ outside
  · rcases second.kept at_ outside with same | ⟨absent, -⟩
    · exact .inr ⟨none, same.trans made⟩
    · rw [made] at absent
      cases absent

/-- What was there before is there still. -/
theorem node?_eq_some (spared : Spares base fs fs') (outside : ¬ base <+: at_)
    (there : fs.node? at_ = some node) : fs'.node? at_ = some node := by
  rcases spared.kept at_ outside with same | ⟨none, -⟩
  · rw [same, there]
  · rw [none] at there
    cases there

end Spares

theorem spares_put_inside (inside : base <+: at_) (h : at_ ≠ []) (node : Node) :
    Spares base fs (fs.put at_ node) := by
  refine ⟨cwd_put at_ node fs, fun other outside => .inl ?_⟩
  rw [node?_put h, if_neg]
  rintro rfl
  exact outside inside

theorem spares_erase_inside (inside : base <+: at_) (h : at_ ≠ []) :
    Spares base fs (fs.erase at_) := by
  refine ⟨rfl, fun other outside => .inl ?_⟩
  rw [node?_erase h, if_neg]
  rintro rfl
  exact outside inside

theorem spares_eraseBelow (base : Location) (fs : FileStore) :
    Spares base fs (fs.eraseBelow base) := by
  refine ⟨rfl, fun other outside => .inl ?_⟩
  rw [node?_eraseBelow, if_neg fun below => outside below.1]

/-- Making a folder where nothing is changes nothing that was there. -/
theorem spares_of_makeFolder (base : Location) (made : fs.makeFolder p = .ok fs') :
    Spares base fs fs' := by
  unfold makeFolder at made
  cases found : fs.locate p with
  | error e =>
      rw [found] at made
      cases made
  | ok at_ =>
      rw [found] at made
      change (if (fs.node? at_).isSome then _ else _) = _ at made
      split at made
      · cases made
      next absent =>
        obtain rfl := Except.ok.inj made
        have none : fs.node? at_ = none := by simpa using absent
        have named : at_ ≠ [] := by
          rintro rfl
          cases none
        refine ⟨cwd_put at_ .folder fs, fun other _ => ?_⟩
        rw [node?_put named]
        split
        next same => exact .inr ⟨same ▸ none, rfl⟩
        next => exact .inl rfl

theorem spares_ensureFolder (base : Location) (fs : FileStore) (p : FilePath) :
    Spares base fs (fs.ensureFolder p).2 := by
  unfold ensureFolder
  split
  next made => exact spares_of_makeFolder base made
  next => split <;> exact .refl base fs

theorem spares_ensureFoldersTo (base : Location) (root : String) (parts : List String)
    (depth : Nat) (fs : FileStore) : Spares base fs (ensureFoldersTo root parts depth fs).2 := by
  induction depth generalizing fs with
  | zero => exact spares_ensureFolder base fs _
  | succ depth ih =>
      unfold ensureFoldersTo
      dsimp only
      split
      · have above := ih fs
        split
        next made =>
          rw [made] at above
          exact above.trans (spares_ensureFolder base _ _)
        next failed =>
          rw [failed] at above
          exact above
      · exact spares_ensureFolder base fs _

/-- Writing a file changes nothing that is outside of its folder. -/
theorem spares_write (plain : ".." ∉ fs.cwd) (inside : base <+: p.parent.place fs.cwd)
    (content? : Option ByteArray) : Spares base fs (fs.write p content?).2 := by
  have above := spares_ensureFoldersTo base p.parent.root p.parent.parts p.parent.parts.length fs
  unfold write
  split
  next failed =>
    rw [ensureFolders] at failed
    rw [failed] at above
    exact above
  next made =>
    rw [ensureFolders] at made
    rw [made] at above
    split
    · exact above
    next folder found =>
      refine above.trans ?_
      obtain rfl := place_of_locate (above.cwd ▸ plain) found
      rw [above.cwd]
      have below (name : String) : base <+: p.parent.place fs.cwd ++ [name] :=
        inside.trans (List.prefix_append _ _)
      have named (name : String) : p.parent.place fs.cwd ++ [name] ≠ [] := by simp
      dsimp only
      split
      · exact .refl base _
      · split
        · exact .refl base _
        · split
          · exact (spares_put_inside (below _) (named _) _).trans
              (spares_erase_inside (below _) (named _))
          · exact ((spares_put_inside (below _) (named _) _).trans
              (spares_put_inside (below _) (named _) _)).trans
              (spares_erase_inside (below _) (named _))

theorem spares_removeFolder (plain : ".." ∉ fs.cwd) :
    Spares (p.place fs.cwd) fs (fs.removeFolder p).2 := by
  unfold removeFolder
  split
  · exact .refl _ fs
  next at_ found =>
    obtain rfl := place_of_locate plain found
    split
    · exact .refl _ fs
    · exact .refl _ fs
    next part _ last =>
      split
      · exact .refl _ fs
      · by_cases root : p.place fs.cwd = []
        · refine ⟨rfl, fun at_ outside => absurd ?_ outside⟩
          rw [root]
          exact List.nil_prefix
        · exact spares_erase_inside (List.prefix_refl _) root

/-- Taking away a tree changes nothing that is outside of it. -/
theorem spares_removeTree (plain : ".." ∉ fs.cwd) :
    Spares (p.place fs.cwd) fs (fs.removeTree p).2 := by
  unfold removeTree
  split
  · exact .refl _ fs
  next at_ found =>
    obtain rfl := place_of_locate plain found
    split
    · exact .refl _ fs
    · exact .refl _ fs
    · have cleared : ".." ∉ (fs.eraseBelow (p.place fs.cwd)).cwd := plain
      exact (spares_eraseBelow _ fs).trans (spares_removeFolder cleared)

end FileStore

end ClientForge
