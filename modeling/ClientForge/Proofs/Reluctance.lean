import ClientForge.Proofs.SoundStore

/-!
# Writing into a store that may refuse

Besides the accesses that cannot be made a store may refuse a step of a write for reasons
of its own: there is no room left, or no leave is given. Whatever it refuses, a write that
fails has made folders on the way to its file and changed nothing else, since what it had
put next to the file is taken away again. A write that succeeds has put the file in its
place, and the same write again, refused or not, changes nothing. Only where the path can
have no store, or there are no bytes when they are asked for, does a write fail for a
reason that the store does not give.
-/

namespace ClientForge

open FilePath

namespace FileStore

/-- A step of a write that changes the store. -/
inductive WriteStep
  /-- Make the folder that so many parts of the path lead to. -/
  | folder (depth : Nat)
  | temporary
  | content
  | move
  deriving DecidableEq, Repr, Inhabited

/-- The steps that a store refuses, each with the reason that it gives. -/
abbrev Refusal := WriteStep → Option String

/-- A store that refuses nothing. -/
def Refusal.never : Refusal := fun _ => none

/-- Why a write failed: an access that cannot be made, or a step that is refused. -/
inductive WriteFault
  | access (fault : AccessFault)
  | refused (reason : String)
  deriving DecidableEq, Repr, Inhabited

/-- The message of a failed write. -/
def WriteFault.text : WriteFault → String
  | access fault => fault.text
  | refused reason => reason

/-- The outcome of a write and the store that it leaves. -/
abbrev Attempt := Except WriteFault Unit × FileStore

variable (refuse : Refusal)

/-- Make one folder unless it is there. The store is asked only where one has to be made. -/
def ensureFolderOn (depth : Nat) (fs : FileStore) (p : FilePath) : Attempt :=
  match fs.makeFolder p with
  | .ok made =>
    match refuse (.folder depth) with
    | none => (.ok (), made)
    | some reason => (.error (.refused reason), fs)
  | .error e => if fs.hasFolder p then (.ok (), fs) else (.error (.access ⟨e, p.quoted⟩), fs)

/-- Make a folder and the folders above it unless they are there, from the first `depth`
parts of a path on. -/
def ensureFoldersToOn (root : String) (parts : List String) : Nat → FileStore → Attempt
  | 0, fs => fs.ensureFolderOn refuse 0 ⟨root, []⟩
  | depth + 1, fs =>
    let p : FilePath := ⟨root, parts.take (depth + 1)⟩
    match fs.makeFolder p with
    | .error .missing =>
      match ensureFoldersToOn root parts depth fs with
      | (.ok _, fs) => fs.ensureFolderOn refuse (depth + 1) p
      | (.error f, fs) => (.error f, fs)
    | _ => fs.ensureFolderOn refuse (depth + 1) p

/-- Write a file: make its folder, write a temporary neighbour, and move that over the
target. If there are no bytes for the neighbour, or it cannot be written or moved, it is
taken away. -/
def writeOn (fs : FileStore) (p : FilePath) (content? : Option ByteArray) : Attempt :=
  match ensureFoldersToOn refuse p.parent.root p.parent.parts p.parent.parts.length fs with
  | (.error f, fs) => (.error f, fs)
  | (.ok _, fs) =>
    match fs.locate p.parent with
    | .error e => (.error (.access ⟨e, p.parent.quoted⟩), fs)
    | .ok folder =>
      let temporary := fs.freshName folder p.name (fs.nodes.length + 1) 0
      let neighbour := (p.parent.absolute fs.cwd).child temporary
      let shown := neighbour.quoted
      if isTooLong temporary || isPathTooLong neighbour then
        (.error (.access ⟨.nameTooLong, shown⟩), fs)
      else
        match refuse .temporary with
        | some reason => (.error (.refused reason), fs)
        | none =>
          match content? with
          | none => (.error (.access ⟨.misuse .unencodable, shown⟩), fs)
          | some content =>
            let fs := fs.put (folder ++ [temporary]) (.file content)
            let withdrawn := fs.erase (folder ++ [temporary])
            match refuse .content with
            | some reason => (.error (.refused reason), withdrawn)
            | none =>
              match fs.node? (folder ++ [p.name]) with
              | some .folder =>
                (.error (.access ⟨.isFolder, shown ++ " -> " ++ p.quoted⟩), withdrawn)
              | _ =>
                match refuse .move with
                | some reason => (.error (.refused reason), withdrawn)
                | none =>
                  (.ok (), (fs.put (folder ++ [p.name]) (.file content)).erase
                    (folder ++ [temporary]))

variable {refuse} {fs fs' fs'' : FileStore} {p q : FilePath} {at_ other : Location} {node : Node}
  {content : ByteArray} {parts : List String}

section Never

theorem ensureFolderOn_never (depth : Nat) (fs : FileStore) (p : FilePath) :
    fs.ensureFolderOn .never depth p =
      ((fs.ensureFolder p).1.mapError .access, (fs.ensureFolder p).2) := by
  unfold ensureFolderOn ensureFolder
  rcases fs.makeFolder p with e | made
  · cases there : fs.hasFolder p <;> simp [Except.mapError]
  · rfl

theorem ensureFoldersToOn_never (root : String) (parts : List String) (depth : Nat)
    (fs : FileStore) : ensureFoldersToOn .never root parts depth fs =
      ((ensureFoldersTo root parts depth fs).1.mapError .access,
        (ensureFoldersTo root parts depth fs).2) := by
  induction depth generalizing fs with
  | zero => exact ensureFolderOn_never 0 fs _
  | succ depth ih =>
      unfold ensureFoldersToOn ensureFoldersTo
      dsimp only
      rcases fs.makeFolder ⟨root, parts.take (depth + 1)⟩ with e | made
      · cases e with
        | missing =>
            rw [ih]
            rcases ensureFoldersTo root parts depth fs with ⟨_ | _, between⟩
            · rfl
            · exact ensureFolderOn_never _ between _
        | _ => exact ensureFolderOn_never _ fs _
      · exact ensureFolderOn_never _ fs _

/-- A store that refuses nothing is written as any store is. -/
theorem writeOn_never (fs : FileStore) (p : FilePath) (content? : Option ByteArray) :
    fs.writeOn .never p content? =
      ((fs.write p content?).1.mapError .access, (fs.write p content?).2) := by
  rw [writeOn, write, ensureFolders, ensureFoldersToOn_never]
  rcases ensureFoldersTo p.parent.root p.parent.parts p.parent.parts.length fs with
    ⟨_ | _, between⟩
  · rfl
  · dsimp only [Except.mapError]
    rcases between.locate p.parent with e | folder
    · rfl
    · dsimp only [Refusal.never]
      split
      · rfl
      · cases content? with
        | none => rfl
        | some content =>
            dsimp only
            rcases (between.put (folder ++ [between.freshName folder p.name
              (between.nodes.length + 1) 0]) (.file content)).node? (folder ++ [p.name]) with
              _ | ⟨_ | _⟩ <;> rfl

end Never

/-- Whether a location is on the way to a path: some of its first parts lead there. -/
def OnWay (cwd : Location) (p : FilePath) (at_ : Location) : Prop :=
  ∃ parts, parts <+: p.parts ∧ at_ = place cwd ⟨p.root, parts⟩

/-- Whether a sound store is another one, but for folders that are made on the way to a
path where nothing was. -/
structure Paves (p : FilePath) (fs fs' : FileStore) : Prop where
  cwd : fs'.cwd = fs.cwd
  sound : fs'.IsSound
  kept : ∀ at_, fs'.node? at_ = fs.node? at_ ∨
    (fs.node? at_ = none ∧ fs'.node? at_ = some .folder ∧ OnWay fs.cwd p at_)

namespace Paves

theorem refl (sound : fs.IsSound) (p : FilePath) : Paves p fs fs :=
  ⟨rfl, sound, fun _ => .inl rfl⟩

theorem retains (paves : Paves p fs fs') : Retains fs fs' := by
  refine ⟨paves.cwd, fun at_ folder => ?_⟩
  rcases paves.kept at_ with same | ⟨none, -, -⟩
  · rw [same, folder]
  · rw [none] at folder
    cases folder

theorem trans (first : Paves p fs fs') (second : Paves p fs' fs'') : Paves p fs fs'' := by
  refine ⟨second.cwd.trans first.cwd, second.sound, fun at_ => ?_⟩
  rcases second.kept at_ with same | ⟨none, made, way⟩
  · rw [same]
    exact first.kept at_
  · rcases first.kept at_ with same | ⟨-, folder, -⟩
    · exact .inr ⟨same ▸ none, made, first.cwd ▸ way⟩
    · rw [none] at folder
      cases folder

theorem mono (paves : Paves q fs fs') (root : q.root = p.root) (above : q.parts <+: p.parts) :
    Paves p fs fs' := by
  refine ⟨paves.cwd, paves.sound, fun at_ => (paves.kept at_).imp_right ?_⟩
  rintro ⟨none, made, parts, further, rfl⟩
  exact ⟨none, made, parts, further.trans above, by rw [root]⟩

end Paves

/-- Making a folder makes the one that the path leads to. -/
theorem paves_of_makeFolder (sound : fs.IsSound) (made : fs.makeFolder p = .ok fs') :
    Paves p fs fs' ∧ fs'.hasFolder p = true := by
  rcases found : fs.locate p with e | at_
  · rw [makeFolder_of_locate_eq_error found] at made
    cases made
  · rw [makeFolder_of_locate found] at made
    split at made
    · cases made
    next absent =>
      obtain rfl := Except.ok.inj made
      have none : fs.node? at_ = none := by simpa using absent
      have named : at_ ≠ [] := by
        rintro rfl
        cases none
      have paves : Paves p fs (fs.put at_ .folder) := by
        refine ⟨cwd_put _ _ _, sound.put named (holder_of_locate sound found none) (.inl rfl), ?_⟩
        intro other
        rw [node?_put named]
        split
        next same =>
          exact .inr ⟨same ▸ none, rfl, p.parts, List.prefix_refl _,
            same.trans (place_of_locate sound.plain found)⟩
        next => exact .inl rfl
      refine ⟨paves, hasFolder_iff.mpr ⟨at_, paves.retains.locate_eq found, ?_⟩⟩
      rw [node?_put named, if_pos rfl]

variable {o : Except WriteFault Unit}

/-- Whether or not a folder is made, only it is; and if it is made, or was, it is there. -/
theorem paves_of_ensureFolderOn {depth : Nat} (sound : fs.IsSound)
    (h : fs.ensureFolderOn refuse depth p = (o, fs')) :
    Paves p fs fs' ∧ (o = .ok () → fs'.hasFolder p = true) := by
  unfold ensureFolderOn at h
  split at h
  next made =>
    obtain ⟨paves, there⟩ := paves_of_makeFolder sound made
    split at h
    · obtain ⟨-, rfl⟩ := Prod.mk.inj h
      exact ⟨paves, fun _ => there⟩
    · obtain ⟨rfl, rfl⟩ := Prod.mk.inj h
      exact ⟨.refl sound p, nofun⟩
  next =>
    split at h
    next there =>
      obtain ⟨-, rfl⟩ := Prod.mk.inj h
      exact ⟨.refl sound p, fun _ => there⟩
    next =>
      obtain ⟨rfl, rfl⟩ := Prod.mk.inj h
      exact ⟨.refl sound p, nofun⟩

theorem paves_of_ensureFoldersToOn {root : String} {depth : Nat} (sound : fs.IsSound)
    (h : ensureFoldersToOn refuse root parts depth fs = (o, fs')) :
    Paves ⟨root, parts.take depth⟩ fs fs' ∧
      (o = .ok () → fs'.hasFolder ⟨root, parts.take depth⟩ = true) := by
  induction depth generalizing fs fs' o with
  | zero => exact paves_of_ensureFolderOn sound h
  | succ depth ih =>
      have shorter : parts.take depth <+: parts.take (depth + 1) :=
        List.take_prefix_take_left (Nat.le_succ depth)
      unfold ensureFoldersToOn at h
      dsimp only at h
      split at h
      · split at h
        next above =>
          have first : Paves ⟨root, parts.take (depth + 1)⟩ fs _ :=
            (ih sound above).1.mono rfl shorter
          obtain ⟨last, there⟩ := paves_of_ensureFolderOn first.sound h
          exact ⟨first.trans last, there⟩
        next above =>
          obtain ⟨rfl, rfl⟩ := Prod.mk.inj h
          exact ⟨(ih sound above).1.mono rfl shorter, nofun⟩
      · exact paves_of_ensureFolderOn sound h

/-- A folder that is there is not made. -/
theorem ensureFolderOn_of_hasFolder {depth : Nat} (there : fs.hasFolder p = true) :
    fs.ensureFolderOn refuse depth p = (.ok (), fs) := by
  obtain ⟨at_, found, folder⟩ := hasFolder_iff.mp there
  simp [ensureFolderOn, makeFolder_of_locate found, folder, there]

/-- The way to a folder that is there is not made. -/
theorem ensureFoldersToOn_of_hasFolder (there : fs.hasFolder p = true) :
    ensureFoldersToOn refuse p.root p.parts p.parts.length fs = (.ok (), fs) := by
  cases count : p.parts.length with
  | zero =>
      have whole : p = ⟨p.root, []⟩ := by
        rw [← List.length_eq_zero_iff.mp count]
      rw [ensureFoldersToOn, ← whole]
      exact ensureFolderOn_of_hasFolder there
  | succ depth =>
      have whole : (⟨p.root, p.parts.take (depth + 1)⟩ : FilePath) = p := by
        rw [← count, List.take_length]
      obtain ⟨at_, found, folder⟩ := hasFolder_iff.mp there
      unfold ensureFoldersToOn
      simp only [whole, makeFolder_of_locate found, folder]
      exact ensureFolderOn_of_hasFolder there

/-- Whether a store is another one with a file at a location. -/
structure Puts (place : Location) (content : ByteArray) (fs fs' : FileStore) : Prop where
  cwd : fs'.cwd = fs.cwd
  sound : fs'.IsSound
  node?_eq : ∀ other,
    fs'.node? other = if other = place then some (.file content) else fs.node? other

section Temporary

variable {place temporary : Location} (free : fs.node? temporary = none)
  (apart : temporary ≠ [])
include free apart

/-- A temporary file that is withdrawn leaves nothing behind. -/
theorem same_of_withdrawn :
    Same fs ((fs.put temporary (.file content)).erase temporary) := by
  refine ⟨by simp, fun other => ?_⟩
  rw [node?_erase apart, node?_put apart]
  split
  next same => rw [same, free]
  next => rfl

/-- A temporary file that is moved puts its content in place and leaves nothing else
behind. -/
theorem puts_of_moved (sound : fs.IsSound) (inside : place ≠ []) (different : place ≠ temporary)
    (held : fs.node? place.dropLast = some .folder) (vacant : fs.node? place ≠ some .folder) :
    Puts place content fs
      (((fs.put temporary (.file content)).put place (.file content)).erase temporary) := by
  have node?_eq : ∀ other, (((fs.put temporary (.file content)).put place
      (.file content)).erase temporary).node? other =
        if other = place then some (.file content) else fs.node? other := by
    intro other
    rw [node?_erase apart, node?_put inside, node?_put apart]
    by_cases here : other = temporary
    · rw [if_pos here, here, if_neg different.symm, free]
    · rw [if_neg here, if_neg here]
  have same : Same (fs.put place (.file content)) _ :=
    ⟨by simp, fun other => (node?_eq other).trans (node?_put inside _ fs other).symm⟩
  exact ⟨by simp, same.isSound (sound.put inside held (.inr vacant)), node?_eq⟩

end Temporary

/-- Whether the temporary neighbour of a file can be named. -/
def Nameable (cwd : Location) (p : FilePath) (n : Nat) : Prop :=
  isTooLong (temporaryName p.name n) = false ∧
    isPathTooLong ((p.parent.absolute cwd).child (temporaryName p.name n)) = false

section Neighbour

variable {n : Nat}

/-- Where its folder is there a file is written exactly if its neighbour can be named, no
folder stands in its place and nothing is refused. A file that is written is all that is
different; otherwise nothing is. -/
theorem writeOn_of_hasFolder (sound : fs.IsSound) (named : p.parts ≠ [])
    (forward : p.name ≠ "..") (there : fs.hasFolder p.parent = true)
    (first : IsFirstFree fs (p.parent.place fs.cwd) p.name n)
    (h : fs.writeOn refuse p (some content) = (o, fs')) :
    (o = .ok () ↔ (Nameable fs.cwd p n ∧ fs.node? (p.place fs.cwd) ≠ some .folder) ∧
      refuse .temporary = none ∧ refuse .content = none ∧ refuse .move = none) ∧
    (o = .ok () → Puts (p.place fs.cwd) content fs fs') ∧
    (o ≠ .ok () → Same fs fs') := by
  obtain ⟨at_, found, folder⟩ := hasFolder_iff.mp there
  obtain rfl := place_of_locate sound.plain found
  have target := place_eq_parent sound.plain named forward
  have different : p.place fs.cwd ≠ p.parent.place fs.cwd ++ [temporaryName p.name n] := by
    rw [target]
    simpa using (temporaryName_ne p.name n).symm
  have apart : p.parent.place fs.cwd ++ [temporaryName p.name n] ≠ [] := by simp
  have inside : p.place fs.cwd ≠ [] := by simp [target]
  have held : fs.node? (p.place fs.cwd).dropLast = some .folder := by
    rw [target, List.dropLast_concat, folder]
  have unmoved : (fs.put (p.parent.place fs.cwd ++ [temporaryName p.name n])
      (.file content)).node? (p.place fs.cwd) = fs.node? (p.place fs.cwd) := by
    rw [node?_put apart, if_neg different]
  have withdrawn : Same fs ((fs.put _ (.file content)).erase _) :=
    same_of_withdrawn first.free apart
  rw [writeOn, ensureFoldersToOn_of_hasFolder there] at h
  simp only [found, freshName_eq first, ← target, unmoved] at h
  split at h
  next long =>
    obtain ⟨rfl, rfl⟩ := Prod.mk.inj h
    refine ⟨⟨nofun, fun can => ?_⟩, nofun, fun _ => .refl fs⟩
    simp [can.1.1.1, can.1.1.2] at long
  next short =>
    have nameable : Nameable fs.cwd p n := by simpa [Nameable] using short
    split at h
    next reason asked =>
      obtain ⟨rfl, rfl⟩ := Prod.mk.inj h
      exact ⟨⟨nofun, fun can => by simp [asked] at can⟩, nofun, fun _ => .refl fs⟩
    next made =>
      split at h
      next reason asked =>
        obtain ⟨rfl, rfl⟩ := Prod.mk.inj h
        exact ⟨⟨nofun, fun can => by simp [asked] at can⟩, nofun, fun _ => withdrawn⟩
      next wrote =>
        split at h
        next blocked =>
          obtain ⟨rfl, rfl⟩ := Prod.mk.inj h
          exact ⟨⟨nofun, fun can => absurd blocked can.1.2⟩, nofun, fun _ => withdrawn⟩
        next vacant =>
          split at h
          next reason asked =>
            obtain ⟨rfl, rfl⟩ := Prod.mk.inj h
            exact ⟨⟨nofun, fun can => by simp [asked] at can⟩, nofun, fun _ => withdrawn⟩
          next moved =>
            obtain ⟨rfl, rfl⟩ := Prod.mk.inj h
            exact ⟨⟨fun _ => ⟨⟨nameable, vacant⟩, made, wrote, moved⟩, fun _ => rfl⟩,
              fun _ => puts_of_moved first.free apart sound inside different held vacant,
              fun failed => absurd rfl failed⟩

end Neighbour

/-- Where its folder is there a file without bytes is not written, and nothing is different. -/
theorem writeOn_none_of_hasFolder (there : fs.hasFolder p.parent = true)
    (h : fs.writeOn refuse p none = (o, fs')) : o ≠ .ok () ∧ fs' = fs := by
  obtain ⟨at_, found, -⟩ := hasFolder_iff.mp there
  rw [writeOn, ensureFoldersToOn_of_hasFolder there] at h
  simp only [found] at h
  split at h
  · obtain ⟨rfl, rfl⟩ := Prod.mk.inj h
    exact ⟨nofun, rfl⟩
  · split at h
    · obtain ⟨rfl, rfl⟩ := Prod.mk.inj h
      exact ⟨nofun, rfl⟩
    · obtain ⟨rfl, rfl⟩ := Prod.mk.inj h
      exact ⟨nofun, rfl⟩

/-- Whether a file has been written for good: it is there and in its folder, and its
temporary neighbour could be named. -/
structure Settled (fs : FileStore) (p : FilePath) (content : ByteArray) : Prop where
  folder : fs.hasFolder p.parent = true
  there : fs.node? (p.place fs.cwd) = some (.file content)
  neighbour : ∃ n, IsFirstFree fs (p.parent.place fs.cwd) p.name n ∧ Nameable fs.cwd p n

/-- What a store that keeps its folders, a file and the temporary names next to it says
about the file stays true. -/
theorem Settled.of_kept (settled : Settled fs p content) (retains : Retains fs fs')
    (there : fs'.node? (p.place fs.cwd) = fs.node? (p.place fs.cwd))
    (neighbours : ∀ m, fs'.node? (p.parent.place fs.cwd ++ [temporaryName p.name m]) =
      fs.node? (p.parent.place fs.cwd ++ [temporaryName p.name m])) : Settled fs' p content := by
  refine ⟨retains.hasFolder settled.folder, ?_, ?_⟩
  · rw [retains.cwd, there, settled.there]
  · obtain ⟨n, first, nameable⟩ := settled.neighbour
    rw [retains.cwd]
    refine ⟨n, ⟨?_, fun m earlier => ?_⟩, nameable⟩
    · rw [neighbours, first.free]
    · rw [neighbours, first.taken m earlier]

theorem Settled.of_same (settled : Settled fs p content) (same : Same fs fs') :
    Settled fs' p content :=
  settled.of_kept ⟨same.cwd, fun at_ folder => (same.node? at_).trans folder⟩ (same.node? _)
    fun _ => same.node? _

/-- Whether a store is another one in which a file has been written: folders are made on
the way to it, and nothing else is different. -/
structure Lands (p : FilePath) (content : ByteArray) (fs fs' : FileStore) : Prop where
  cwd : fs'.cwd = fs.cwd
  sound : fs'.IsSound
  settled : Settled fs' p content
  vacant : fs.node? (p.place fs.cwd) ≠ some .folder
  kept : ∀ at_, at_ ≠ p.place fs.cwd → fs'.node? at_ = fs.node? at_ ∨
    (fs.node? at_ = none ∧ fs'.node? at_ = some .folder ∧ OnWay fs.cwd p.parent at_)

/-- A file that is put where its folder is lands there. -/
theorem lands_of_puts {n : Nat} (sound : fs.IsSound) (named : p.parts ≠ [])
    (forward : p.name ≠ "..") (folder : fs.hasFolder p.parent = true)
    (first : IsFirstFree fs (p.parent.place fs.cwd) p.name n) (nameable : Nameable fs.cwd p n)
    (vacant : fs.node? (p.place fs.cwd) ≠ some .folder)
    (put : Puts (p.place fs.cwd) content fs fs') : Lands p content fs fs' := by
  have target := place_eq_parent sound.plain named forward
  have retains : Retains fs fs' := by
    refine ⟨put.cwd, fun at_ held => ?_⟩
    rw [put.node?_eq, if_neg, held]
    rintro rfl
    exact vacant held
  have beside (m : Nat) : p.parent.place fs.cwd ++ [temporaryName p.name m] ≠ p.place fs.cwd := by
    rw [target]
    simpa using temporaryName_ne p.name m
  refine ⟨put.cwd, put.sound, ⟨retains.hasFolder folder, ?_, ?_⟩, vacant, fun at_ other => ?_⟩
  · rw [put.cwd, put.node?_eq, if_pos rfl]
  · rw [put.cwd]
    refine ⟨n, ⟨?_, fun m earlier => ?_⟩, nameable⟩
    · rw [put.node?_eq, if_neg (beside n), first.free]
    · rw [put.node?_eq, if_neg (beside m), first.taken m earlier]
  · rw [put.node?_eq, if_neg other]
    exact .inl rfl

/-- What lands in a store that is paved lands in the store before. -/
theorem Lands.of_paves (lands : Lands p content fs' fs'') (paves : Paves p.parent fs fs') :
    Lands p content fs fs'' := by
  refine ⟨lands.cwd.trans paves.cwd, lands.sound, lands.settled, ?_, fun at_ other => ?_⟩
  · rw [← paves.cwd]
    exact fun held => lands.vacant (paves.retains.folder _ held)
  · rcases lands.kept at_ (paves.cwd ▸ other) with same | ⟨none, made, way⟩
    · rw [same]
      exact paves.kept at_
    · rcases paves.kept at_ with same | ⟨-, folder, -⟩
      · exact .inr ⟨same ▸ none, made, paves.cwd ▸ way⟩
      · rw [none] at folder
        cases folder

/-- A write that succeeds lands its file, and one that fails makes folders at most. -/
theorem writeOn_spec {content? : Option ByteArray} (sound : fs.IsSound) (named : p.parts ≠ [])
    (forward : p.name ≠ "..") (h : fs.writeOn refuse p content? = (o, fs')) :
    (o = .ok () → ∃ content, content? = some content ∧ Lands p content fs fs') ∧
      (o ≠ .ok () → Paves p.parent fs fs') := by
  rcases made : ensureFoldersToOn refuse p.parent.root p.parent.parts p.parent.parts.length fs with
    ⟨fault | ⟨⟩, between⟩
  · rw [writeOn, made] at h
    obtain ⟨rfl, rfl⟩ := Prod.mk.inj h
    have paves := (paves_of_ensureFoldersToOn sound made).1
    rw [List.take_length] at paves
    exact ⟨nofun, fun _ => paves⟩
  · obtain ⟨paves, there⟩ := paves_of_ensureFoldersToOn sound made
    rw [List.take_length] at paves there
    have folder := there rfl
    -- the folder being there, writing goes on as if it had started from here
    have onward : between.writeOn refuse p content? = (o, fs') := by
      rw [← h, writeOn, writeOn, made, ensureFoldersToOn_of_hasFolder folder]
    cases content? with
    | none =>
        obtain ⟨failed, rfl⟩ := writeOn_none_of_hasFolder folder onward
        exact ⟨fun done => absurd done failed, fun _ => paves⟩
    | some content =>
        obtain ⟨n, first⟩ := exists_isFirstFree between (p.parent.place between.cwd) p.name
        obtain ⟨ends, puts, same⟩ :=
          writeOn_of_hasFolder paves.sound named forward folder first onward
        constructor
        · intro done
          obtain ⟨nameable, vacant⟩ := (ends.mp done).1
          exact ⟨content, rfl, (lands_of_puts paves.sound named forward folder first nameable
            vacant (puts done)).of_paves paves⟩
        · intro failed
          have alike := same failed
          refine ⟨alike.cwd.trans paves.cwd, alike.isSound paves.sound, fun at_ => ?_⟩
          rw [alike.node?]
          exact paves.kept at_

/-- Writing a settled file again changes nothing, and fails only if a step is refused. -/
theorem writeOn_of_settled (sound : fs.IsSound) (named : p.parts ≠ []) (forward : p.name ≠ "..")
    (settled : Settled fs p content) (h : fs.writeOn refuse p (some content) = (o, fs')) :
    Same fs fs' ∧ (refuse = .never → o = .ok ()) := by
  obtain ⟨n, first, nameable⟩ := settled.neighbour
  obtain ⟨ends, puts, same⟩ :=
    writeOn_of_hasFolder sound named forward settled.folder first h
  constructor
  · by_cases done : o = .ok ()
    · have put := puts done
      refine ⟨put.cwd, fun at_ => ?_⟩
      rw [put.node?_eq]
      split
      next here => rw [here, settled.there]
      next => rfl
    · exact same done
  · rintro rfl
    exact ends.mpr ⟨⟨nameable, by simp [settled.there]⟩, rfl, rfl, rfl⟩

/-- Whether a write gets as far as asking for the bytes: the folder of its file can be made,
the temporary neighbour can be named, and making it is not refused. -/
def Opens (refuse : Refusal) (fs : FileStore) (p : FilePath) : Prop :=
  ∃ between folder,
    ensureFoldersToOn refuse p.parent.root p.parent.parts p.parent.parts.length fs =
      (.ok (), between) ∧
    between.locate p.parent = .ok folder ∧
    (∀ n, IsFirstFree between folder p.name n → Nameable between.cwd p n) ∧
    refuse .temporary = none

section Fault

variable {fault : AccessFault}

theorem misuse?_of_ensureFolderOn {depth : Nat} (clean : p.isBarred = false)
    (h : fs.ensureFolderOn refuse depth p = (.error (.access fault), fs')) :
    fault.error.misuse? = none := by
  unfold ensureFolderOn at h
  split at h
  · split at h <;> cases h
  next made =>
    split at h
    · cases h
    · cases h
      exact misuse?_of_makeFolder clean made

theorem misuse?_of_ensureFoldersToOn {root : String} {depth : Nat}
    (clean : FilePath.isBarred ⟨root, parts⟩ = false)
    (h : ensureFoldersToOn refuse root parts depth fs = (.error (.access fault), fs')) :
    fault.error.misuse? = none := by
  induction depth generalizing fs fs' with
  | zero => exact misuse?_of_ensureFolderOn (isBarred_take clean 0) h
  | succ depth ih =>
      unfold ensureFoldersToOn at h
      dsimp only at h
      split at h
      · split at h
        next => exact misuse?_of_ensureFolderOn (isBarred_take clean (depth + 1)) h
        next above =>
          cases h
          exact ih above
      · exact misuse?_of_ensureFolderOn (isBarred_take clean (depth + 1)) h

/-- Writing below a path that some store can have fails for a reason of the store, unless it
gets as far as asking for bytes that are not there. -/
theorem misuse?_of_writeOn {content? : Option ByteArray} (clean : p.parent.isBarred = false)
    (h : fs.writeOn refuse p content? = (.error (.access fault), fs')) :
    fault.error.misuse? = none ∨ (content? = none ∧ Opens refuse fs p) := by
  unfold writeOn at h
  split at h
  next made =>
    cases h
    exact .inl (misuse?_of_ensureFoldersToOn clean made)
  next between made =>
    split at h
    next e found =>
      cases h
      exact .inl (misuse?_of_locate clean found)
    next folder found =>
      dsimp only at h
      split at h
      · cases h
        exact .inl rfl
      next short =>
        split at h
        · cases h
        next asked =>
          split at h
          · refine .inr ⟨rfl, between, folder, made, found, fun n first => ?_, asked⟩
            rw [freshName_eq first] at short
            simpa [Nameable] using short
          · split at h
            · cases h
            · split at h
              · cases h
                exact .inl rfl
              · split at h <;> cases h

/-- A write that gets as far as asking for bytes that are not there fails for that. -/
theorem writeOn_none_of_opens (opens : Opens refuse fs p) : ∃ subject between,
    fs.writeOn refuse p none = (.error (.access ⟨.misuse .unencodable, subject⟩), between) := by
  obtain ⟨between, folder, made, found, nameable, asked⟩ := opens
  obtain ⟨n, first⟩ := exists_isFirstFree between folder p.name
  obtain ⟨name, path⟩ := nameable n first
  refine ⟨((p.parent.absolute between.cwd).child (temporaryName p.name n)).quoted, between, ?_⟩
  rw [writeOn, made]
  simp only [found, freshName_eq first, name, path, asked, Bool.or_self, Bool.false_eq_true,
    if_false]

/-- Below a path that no store can have no folder is made and nothing is written. -/
theorem writeOn_of_isBarred (content? : Option ByteArray) (barred : p.parent.isBarred = true) :
    fs.writeOn refuse p content? =
      (.error (.access ⟨.misuse p.parent.barring, p.parent.quoted⟩), fs) := by
  have none : fs.makeFolder p.parent = .error (.misuse p.parent.barring) :=
    makeFolder_of_isBarred barred
  have unmade (depth : Nat) : fs.ensureFolderOn refuse depth p.parent =
      (.error (.access ⟨.misuse p.parent.barring, p.parent.quoted⟩), fs) := by
    have absent : fs.hasFolder p.parent = false := by
      simp [hasFolder, at?, locate_of_isBarred barred, Except.map]
    rw [ensureFolderOn, none]
    simp only [absent, Bool.false_eq_true, if_false]
  have failed : ensureFoldersToOn refuse p.parent.root p.parent.parts p.parent.parts.length fs =
      (.error (.access ⟨.misuse p.parent.barring, p.parent.quoted⟩), fs) := by
    cases count : p.parent.parts.length with
    | zero =>
        rw [List.length_eq_zero_iff] at count
        simp [FilePath.isBarred, count] at barred
    | succ depth =>
        have whole : p.parent.parts.take (depth + 1) = p.parent.parts := by
          rw [← count, List.take_length]
        rw [ensureFoldersToOn, whole]
        simp only [none]
        exact unmade _
  rw [writeOn, failed]

end Fault

end FileStore

end ClientForge
