import ClientForge.FileStore
import ClientForge.Proofs.Naming

/-!
# Paths that no store can have

A path of which a part cannot be encoded or holds the null character leads nowhere, and
nothing else does so for that reason. An attempt to write below such a path is given up
before anything is made. Any other attempt to write a content that has bytes fails for a
reason that the store has.
-/

namespace ClientForge

namespace FilePath

variable {p q : FilePath}

/-- A path that leads from a folder to something in it. -/
structure Inner (p : FilePath) : Prop where
  relative : p.isAbsolute = false
  named : p.parts ≠ []
  clean : p.isBarred = false

instance : Decidable p.Inner :=
  decidable_of_iff (p.isAbsolute = false ∧ p.parts ≠ [] ∧ p.isBarred = false)
    ⟨fun ⟨relative, named, clean⟩ => ⟨relative, named, clean⟩,
      fun ⟨relative, named, clean⟩ => ⟨relative, named, clean⟩⟩

/-- A part without the mark and the null character stands in names of a store. -/
theorem isBarredPart_of_notMem {part : String} (mark : Text.mark ∉ part.toList)
    (null : '\x00' ∉ part.toList) : isBarredPart part = false := by
  have plain : ((part.toList.map Char.toNat).any (!isNameCode ·)) = false := by
    simp only [List.any_map, List.any_eq_false]
    intro c _
    rw [Function.comp_apply, isNameCode, decide_eq_true (show c.toNat.isValidChar from c.valid)]
    simp
  rw [isBarredPart, holdsStray, Text.codes_eq_map mark, plain, Bool.false_or]
  simpa using null

theorem join_of_inner (h : q.Inner) : p.join q = ⟨p.root, p.parts ++ q.parts⟩ := by
  simp [join, h.relative]

/-- What holds the folder of an inner path is the outer path and what leads to it. -/
theorem parent_join_of_inner (h : q.Inner) :
    (p.join q).parent = ⟨p.root, p.parts ++ q.parts.dropLast⟩ := by
  rw [join_of_inner h, parent, List.dropLast_append_of_ne_nil h.named]

theorem isBarred_parent_join (h : q.Inner) : (p.join q).parent.isBarred = p.isBarred := by
  have inner : q.parts.dropLast.any isBarredPart = false := by
    rw [List.any_eq_false]
    intro part hp
    exact (List.any_eq_false.mp h.clean) part (List.dropLast_subset _ hp)
  rw [parent_join_of_inner h, isBarred, isBarred, List.any_append, inner, Bool.or_false]

theorem barring_parent_join (h : q.Inner) : (p.join q).parent.barring = p.barring := by
  have inner : q.parts.dropLast.any holdsStray = false := by
    rw [List.any_eq_false]
    intro part hp stray
    refine List.any_eq_false.mp h.clean part (List.dropLast_subset _ hp) ?_
    rw [isBarredPart, stray, Bool.true_or]
  rw [parent_join_of_inner h, barring, barring, List.any_append, inner, Bool.or_false]

end FilePath

namespace FileStore

variable {fs : FileStore} {p : FilePath} {e : AccessError} {fault : AccessFault}

theorem locate_of_isBarred (barred : p.isBarred = true) :
    fs.locate p = .error (.misuse p.barring) := by
  simp [locate, barred]

theorem misuse?_of_walk {start : Location} {parts : List String}
    (failed : fs.walk start parts = .error e) : e.misuse? = none := by
  fun_induction walk fs start parts with
  | case1 => cases failed
  | case2 =>
      obtain rfl := Except.error.inj failed
      rfl
  | case3 =>
      obtain rfl := Except.error.inj failed
      rfl
  | case4 =>
      obtain rfl := Except.error.inj failed
      rfl
  | case5 _ _ _ _ _ ih => exact ih failed

theorem misuse?_of_locate (clean : p.isBarred = false) (failed : fs.locate p = .error e) :
    e.misuse? = none := by
  unfold locate at failed
  rw [if_neg (by simp [clean])] at failed
  split at failed
  · obtain rfl := Except.error.inj failed
    rfl
  · dsimp only at failed
    split at failed
    · cases failed
    · exact misuse?_of_walk failed

theorem makeFolder_of_isBarred (barred : p.isBarred = true) :
    fs.makeFolder p = .error (.misuse p.barring) := by
  rw [makeFolder, locate_of_isBarred barred]
  rfl

theorem misuse?_of_makeFolder (clean : p.isBarred = false) (failed : fs.makeFolder p = .error e) :
    e.misuse? = none := by
  unfold makeFolder at failed
  cases found : fs.locate p with
  | error e' =>
      rw [found] at failed
      obtain rfl := Except.error.inj failed
      exact misuse?_of_locate clean found
  | ok at_ =>
      rw [found] at failed
      change (if (fs.node? at_).isSome then _ else _) = _ at failed
      split at failed
      · obtain rfl := Except.error.inj failed
        rfl
      · cases failed

theorem ensureFolder_of_isBarred (barred : p.isBarred = true) :
    fs.ensureFolder p = (.error ⟨.misuse p.barring, p.quoted⟩, fs) := by
  have nowhere : fs.hasFolder p = false := by
    simp [hasFolder, at?, locate_of_isBarred barred, Except.map]
  simp [ensureFolder, makeFolder_of_isBarred barred, nowhere]

theorem misuse?_of_ensureFolder (clean : p.isBarred = false)
    (failed : (fs.ensureFolder p).1 = .error fault) : fault.error.misuse? = none := by
  unfold ensureFolder at failed
  split at failed
  next => cases failed
  next e made =>
    split at failed
    · cases failed
    · obtain rfl := Except.error.inj failed
      exact misuse?_of_makeFolder clean made

/-- A path without barred parts has none further up. -/
theorem isBarred_take {root : String} {parts : List String}
    (clean : FilePath.isBarred ⟨root, parts⟩ = false) (n : Nat) :
    FilePath.isBarred ⟨root, parts.take n⟩ = false := by
  rw [FilePath.isBarred, List.any_eq_false] at clean ⊢
  exact fun part hp => clean part (List.mem_of_mem_take hp)

theorem misuse?_of_ensureFoldersTo {root : String} {parts : List String} {depth : Nat}
    (clean : FilePath.isBarred ⟨root, parts⟩ = false)
    (failed : (ensureFoldersTo root parts depth fs).1 = .error fault) :
    fault.error.misuse? = none := by
  induction depth generalizing fs with
  | zero => exact misuse?_of_ensureFolder (isBarred_take clean 0) failed
  | succ depth ih =>
      unfold ensureFoldersTo at failed
      dsimp only at failed
      split at failed
      · split at failed
        next => exact misuse?_of_ensureFolder (isBarred_take clean (depth + 1)) failed
        next above => exact ih ((congrArg Prod.fst above).trans failed)
      · exact misuse?_of_ensureFolder (isBarred_take clean (depth + 1)) failed

/-- A folder whose path is barred is not made, and neither are those above it. -/
theorem ensureFolders_of_isBarred (barred : p.isBarred = true) :
    fs.ensureFolders p = (.error ⟨.misuse p.barring, p.quoted⟩, fs) := by
  rw [ensureFolders]
  cases depth : p.parts.length with
  | zero =>
      rw [List.length_eq_zero_iff] at depth
      simp [FilePath.isBarred, depth] at barred
  | succ depth' =>
      have all : p.parts.take (depth' + 1) = p.parts := by rw [← depth, List.take_length]
      rw [ensureFoldersTo, all]
      have none : fs.makeFolder ⟨p.root, p.parts⟩ = .error (.misuse p.barring) :=
        makeFolder_of_isBarred barred
      simp only [none]
      exact ensureFolder_of_isBarred barred

/-- Writing below a barred path changes nothing. -/
theorem write_of_isBarred (content? : Option ByteArray) (barred : p.parent.isBarred = true) :
    fs.write p content? = (.error ⟨.misuse p.parent.barring, p.parent.quoted⟩, fs) := by
  rw [write, ensureFolders_of_isBarred barred]

/-- Writing elsewhere fails for another reason, unless there are no bytes to write. -/
theorem misuse?_of_write {content? : Option ByteArray} (clean : p.parent.isBarred = false)
    (failed : (fs.write p content?).1 = .error fault) :
    fault.error.misuse? = none ∨ (content? = none ∧ fault.error = .misuse .unencodable) := by
  unfold write at failed
  split at failed
  next made =>
    exact .inl (misuse?_of_ensureFoldersTo clean ((congrArg Prod.fst made).trans failed))
  next =>
    split at failed
    next e found =>
      obtain rfl := Except.error.inj failed
      exact .inl (misuse?_of_locate clean found)
    next =>
      dsimp only at failed
      split at failed
      · obtain rfl := Except.error.inj failed
        exact .inl rfl
      · split at failed
        · obtain rfl := Except.error.inj failed
          exact .inr ⟨rfl, rfl⟩
        · split at failed
          · obtain rfl := Except.error.inj failed
            exact .inl rfl
          · cases failed

/-- Nothing is written without bytes. -/
theorem write_none_ne_ok : (fs.write p none).1 ≠ .ok () := by
  unfold write
  split
  · nofun
  · split
    · nofun
    · dsimp only
      split <;> nofun

theorem has_of_isBarred (barred : p.isBarred = true) : fs.has p = .ok false := by
  simp [has, at?, locate_of_isBarred barred, Except.map]

end FileStore

end ClientForge
