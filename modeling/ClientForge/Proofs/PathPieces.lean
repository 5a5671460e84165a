import ClientForge.Emission.Path

/-!
# Parameters of a path

A parameter opens with a brace and ends at the next closing one, with a name between them
that is not empty. Everything else in a path is text. Filling a path gives every parameter a
text, from left to right, and keeps the rest; there is only one way to do it. Slashes in front
of a path are text, so a path has the same parameters with and without them.
-/

namespace ClientForge

/-- Whether a text starts with a parameter. -/
def OpensParameter (cs : List Char) : Prop :=
  ∃ name rest, name ≠ [] ∧ '\x7d' ∉ name ∧ cs = '\x7b' :: (name ++ '\x7d' :: rest)

/-- A text with each of its parameters replaced by what a function gives for the name. -/
inductive Filled (value : List Char → List Char) : List Char → List Char → Prop
  | done : Filled value [] []
  | parameter {name rest out : List Char} (some_ : name ≠ []) (closed : '\x7d' ∉ name)
      (more : Filled value rest out) :
      Filled value ('\x7b' :: (name ++ '\x7d' :: rest)) (value name ++ out)
  | text {c : Char} {rest out : List Char} (plain : ¬ OpensParameter (c :: rest))
      (more : Filled value rest out) : Filled value (c :: rest) (c :: out)

variable {value : List Char → List Char} {before cs name after out rest : List Char} {c : Char}

/-- The name of a parameter is what stands before the first closing brace. -/
theorem closeParameter_eq_some_iff :
    closeParameter before cs = some (name, after) ↔
      ∃ more, name = before.reverse ++ more ∧ name ≠ [] ∧ '\x7d' ∉ more ∧
        cs = more ++ '\x7d' :: after := by
  fun_induction closeParameter before cs with
  | case1 before =>
      constructor
      · intro h
        cases h
      · rintro ⟨more, -, -, -, whole⟩
        simp at whole
  | case2 before rest empty =>
      obtain rfl := List.isEmpty_iff.mp empty
      constructor
      · intro h
        cases h
      · rintro ⟨more, same, some_, closed, whole⟩
        cases more with
        | nil => exact absurd same some_
        | cons d more =>
            rw [(List.cons.inj whole).1] at closed
            exact absurd List.mem_cons_self closed
  | case3 before rest some_ =>
      constructor
      · intro h
        obtain ⟨rfl, rfl⟩ := Prod.mk.inj (Option.some.inj h)
        refine ⟨[], by simp, ?_, List.not_mem_nil, rfl⟩
        simpa using some_
      · rintro ⟨more, rfl, -, closed, whole⟩
        cases more with
        | nil => rw [List.append_nil, (List.cons.inj whole).2]
        | cons d more =>
            rw [(List.cons.inj whole).1] at closed
            exact absurd List.mem_cons_self closed
  | case4 before c rest other ih =>
      rw [ih]
      constructor
      · rintro ⟨more, rfl, some_, closed, rfl⟩
        refine ⟨c :: more, by simp, some_, ?_, rfl⟩
        rw [List.mem_cons, not_or]
        exact ⟨Ne.symm other, closed⟩
      · rintro ⟨more, rfl, some_, closed, whole⟩
        cases more with
        | nil => exact absurd (List.cons.inj whole).1 other
        | cons d more =>
            obtain ⟨rfl, rfl⟩ := List.cons.inj whole
            exact ⟨more, by simp, some_, fun h => closed (List.mem_cons_of_mem c h), rfl⟩

theorem closeParameter_nil_eq_some_iff :
    closeParameter [] cs = some (name, after) ↔
      name ≠ [] ∧ '\x7d' ∉ name ∧ cs = name ++ '\x7d' :: after := by
  rw [closeParameter_eq_some_iff]
  constructor
  · rintro ⟨more, rfl, some_, closed, whole⟩
    exact ⟨some_, closed, whole⟩
  · rintro ⟨some_, closed, whole⟩
    exact ⟨name, rfl, some_, closed, whole⟩

theorem opensParameter_iff :
    OpensParameter (c :: rest) ↔
      c = '\x7b' ∧ ∃ name after, closeParameter [] rest = some (name, after) := by
  simp only [closeParameter_nil_eq_some_iff, OpensParameter, List.cons.injEq]
  constructor
  · rintro ⟨name, after, some_, closed, opening, whole⟩
    exact ⟨opening, name, after, some_, closed, whole⟩
  · rintro ⟨opening, name, after, some_, closed, whole⟩
    exact ⟨name, after, some_, closed, opening, whole⟩

/-- A parameter is a piece of its own. -/
theorem pathPieces_parameter (some_ : name ≠ []) (closed : '\x7d' ∉ name) (rest : List Char) :
    pathPieces ('\x7b' :: (name ++ '\x7d' :: rest)) = .parameter name :: pathPieces rest := by
  have found : closeParameter [] (name ++ '\x7d' :: rest) = some (name, rest) :=
    closeParameter_nil_eq_some_iff.mpr ⟨some_, closed, rfl⟩
  rw [pathPieces, if_pos rfl]
  split
  next other after found_ =>
    rw [found] at found_
    obtain ⟨rfl, rfl⟩ := Prod.mk.inj (Option.some.inj found_)
    rfl
  next none_ =>
    rw [found] at none_
    cases none_

/-- A character that starts no parameter is set before what follows. -/
theorem pathPieces_text (plain : ¬ OpensParameter (c :: rest)) :
    pathPieces (c :: rest) = PathPiece.attach c (pathPieces rest) := by
  rw [pathPieces]
  split
  next opening =>
    split
    next name after found =>
      exact absurd (opensParameter_iff.mpr ⟨opening, name, after, found⟩) plain
    next => rfl
  next => rfl

namespace PathPiece

/-- The text of a piece with a value for its parameter. -/
def filled (value : List Char → List Char) : PathPiece → List Char
  | text cs => cs
  | parameter name => value name

@[simp] theorem flatMap_filled_attach (c : Char) (pieces : List PathPiece) :
    (attach c pieces).flatMap (filled value) = c :: pieces.flatMap (filled value) := by
  unfold attach
  split <;> rfl

@[simp] theorem filterMap_parameter?_attach (c : Char) (pieces : List PathPiece) :
    (attach c pieces).filterMap (·.parameter?) = pieces.filterMap (·.parameter?) := by
  unfold attach
  split <;> rfl

end PathPiece

/-- A text is filled in one way, piece by piece. -/
theorem filled_iff : Filled value cs out ↔ out = (pathPieces cs).flatMap (·.filled value) := by
  constructor
  · intro h
    induction h with
    | done => simp [pathPieces]
    | parameter some_ closed _ ih =>
        rw [pathPieces_parameter some_ closed, List.flatMap_cons, ← ih]
        rfl
    | text plain _ ih => rw [pathPieces_text plain, PathPiece.flatMap_filled_attach, ← ih]
  · rintro rfl
    induction length : cs.length using Nat.strongRecOn generalizing cs with
    | _ n ih =>
        cases cs with
        | nil =>
            rw [pathPieces]
            exact .done
        | cons c rest =>
            by_cases opens : OpensParameter (c :: rest)
            · obtain ⟨name, after, some_, closed, whole⟩ := opens
              rw [whole, pathPieces_parameter some_ closed, List.flatMap_cons]
              refine .parameter some_ closed (ih after.length ?_ rfl)
              rw [← length, whole]
              simp only [List.length_cons, List.length_append]
              omega
            · rw [pathPieces_text opens, PathPiece.flatMap_filled_attach]
              exact .text opens (ih rest.length (by simp [← length]) rfl)

namespace Emission

/-- Slashes in front of a path hide none of its parameters. -/
theorem parameters_relativePath (path : String) :
    (pathPieces (relativePath path)).filterMap (·.parameter?) =
      (pathPieces path.toList).filterMap (·.parameter?) := by
  unfold relativePath
  induction path.toList with
  | nil => rfl
  | cons c rest ih =>
      by_cases slash : c = '/'
      · subst slash
        have plain : ¬ OpensParameter ('/' :: rest) := fun h =>
          absurd (opensParameter_iff.mp h).1 (by decide)
        rw [List.dropWhile_cons_of_pos (by decide), ih, pathPieces_text plain,
          PathPiece.filterMap_parameter?_attach]
      · rw [List.dropWhile_cons_of_neg (by simpa using slash)]

end Emission

end ClientForge
