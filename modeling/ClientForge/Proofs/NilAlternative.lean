import ClientForge.Proofs.FlatExpression

/-!
# Nil as an alternative

An expression offers nil if nil is one of its alternatives: it stands by itself between bars that
are outside of all parentheses, or in an alternative that is all in parentheses and offers it.
An array of alternatives offers nothing. What is looked for instead is nil between any two bars
once a pair of parentheses around all is taken off, unless the whole ends in a suffix. Where an
expression has no parentheses, or one pair around all but its suffixes, that finds nil where it is
offered, with one exception: where a suffix ends the last alternative, it is taken to be
behind all of them.
-/

namespace ClientForge.TypeExpr

open ClientForge.Text

variable {cs inner rest : List Char} {c : Char} {depth : Nat} {token : String}

/-! ## Bars outside of parentheses -/

/-- The number of parentheses that are open behind a character. -/
def nesting (c : Char) (depth : Nat) : Nat :=
  if c = '(' then depth + 1 else if c = ')' then depth - 1 else depth

/-- What stands between the bars outside of all parentheses, where some are open already. -/
def branches : Nat → List Char → List (List Char)
  | _, [] => [[]]
  | depth, c :: rest =>
    if c = '|' ∧ depth = 0 then [] :: branches 0 rest
    else
      match branches (nesting c depth) rest with
      | [] => [[c]]
      | piece :: more => (c :: piece) :: more

/-- Whether nil is an alternative of an expression, or of one of its alternatives that is all in
parentheses. -/
inductive OffersNil : List Char → Prop
  | alone {cs branch : List Char} (h : branch ∈ branches 0 cs) (nil : trim branch = nilToken) :
      OffersNil cs
  | inside {cs branch inner : List Char} (h : branch ∈ branches 0 cs)
      (whole : trim branch = '(' :: (inner ++ [')'])) (offers : OffersNil inner) : OffersNil cs

/-- Whether nil is found in an expression: no suffix ends it, and nil stands between bars when a
pair of parentheses around all is taken off. -/
def ShowsNil (cs : List Char) : Prop :=
  ¬ ['[', ']'] <:+ trim cs ∧ nilToken ∈ alternatives (unwrap (trim cs))

theorem parse_nullable_iff : (parse token).2 = true ↔ ShowsNil token.toList := by
  by_cases suffix : ['[', ']'] <:+ trim token.toList
  · obtain ⟨core, whole⟩ := suffix
    have counted : (parse token).2 = false := by
      rw [parse, ← whole, List.reverse_append]
      simp only [List.reverse_cons, List.reverse_nil, List.nil_append, List.cons_append,
        suffixes_closing]
      simp
    simp [ShowsNil, counted, ← whole]
  · rw [parse_of_plain suffix]
    simp [ShowsNil, suffix]

/-- Whether a text has no parentheses. -/
def IsBare (cs : List Char) : Prop := ∀ c ∈ ['(', ')'], c ∉ cs

instance (cs : List Char) : Decidable (IsBare cs) :=
  inferInstanceAs (Decidable (∀ c ∈ ['(', ')'], c ∉ cs))

theorem IsBare.nesting_eq (bare : IsBare cs) (h : c ∈ cs) : nesting c depth = depth := by
  have opening : c ≠ '(' := fun same => bare '(' (by decide) (same ▸ h)
  have closing : c ≠ ')' := fun same => bare ')' (by decide) (same ▸ h)
  rw [nesting, if_neg opening, if_neg closing]

theorem IsBare.tail (bare : IsBare (c :: cs)) : IsBare cs := fun d hd inside =>
  bare d hd (List.mem_cons_of_mem c inside)

/-- Without parentheses an expression branches at every bar. -/
theorem IsBare.branches_eq (bare : IsBare cs) : branches 0 cs = splitAt '|' cs := by
  induction cs with
  | nil => rfl
  | cons c rest ih =>
      rw [branches, splitAt, bare.nesting_eq List.mem_cons_self, ih bare.tail]
      exact if_congr (and_iff_left rfl) rfl rfl

/-- A text without parentheses passes whole in parentheses, and elsewhere if it has no bar. -/
theorem IsBare.branches_append (bare : IsBare cs) (closed : '|' ∈ cs → depth ≠ 0)
    {piece : List Char} {more : List (List Char)} (behind : branches depth rest = piece :: more) :
    branches depth (cs ++ rest) = (cs ++ piece) :: more := by
  induction cs with
  | nil => exact behind
  | cons c cs ih =>
      have other : ¬ (c = '|' ∧ depth = 0) := fun ⟨bar, zero⟩ =>
        closed (bar ▸ List.mem_cons_self) zero
      have next := ih bare.tail fun bar => closed (List.mem_cons_of_mem c bar)
      rw [List.cons_append, branches, if_neg other, bare.nesting_eq List.mem_cons_self, next]
      rfl

/-- Nothing branches off at a bar in parentheses. -/
theorem branches_parentheses {before after : List Char} (bare : IsBare before)
    (bare' : IsBare inner) (bare'' : IsBare after) (single : '|' ∉ before)
    (single' : '|' ∉ after) :
    branches 0 (before ++ '(' :: (inner ++ ')' :: after)) =
      [before ++ '(' :: (inner ++ ')' :: after)] := by
  have behind : branches 0 after = [after] := by
    rw [bare''.branches_eq, splitAt_of_notMem single']
  have closing : branches 1 (')' :: after) = [')' :: after] := by
    rw [branches, if_neg (by decide), nesting]
    simp [behind]
  have inside : branches 1 (inner ++ ')' :: after) = [inner ++ ')' :: after] :=
    bare'.branches_append (fun _ => Nat.one_ne_zero) closing
  have opening : branches 0 ('(' :: (inner ++ ')' :: after)) =
      ['(' :: (inner ++ ')' :: after)] := by
    rw [branches, if_neg (by decide), nesting]
    simp [inside]
  exact bare.branches_append (fun bar => absurd bar single) opening

/-! ## Expressions with at most one pair of parentheses -/

/-- Without parentheses nil is offered where it is one of the alternatives. -/
theorem IsBare.offersNil_iff (bare : IsBare cs) : OffersNil cs ↔ nilToken ∈ alternatives cs := by
  have part {branch : List Char} (h : branch ∈ branches 0 cs) : branch ∈ splitAt '|' cs :=
    bare.branches_eq ▸ h
  constructor
  · intro offers
    cases offers with
    | @alone _ branch h nil =>
        exact List.mem_filter.mpr ⟨List.mem_map.mpr ⟨branch, part h, nil⟩, by decide⟩
    | @inside _ branch inner h whole _ =>
        have opening : '(' ∈ branch := by
          rw [← mem_trim_iff (by decide), whole]
          exact List.mem_cons_self
        exact absurd ((sublist_of_mem_splitAt (part h)).subset opening) (bare '(' (by decide))
  · intro h
    obtain ⟨branch, hb, nil⟩ := List.mem_map.mp (List.mem_filter.mp h).1
    exact .alone (bare.branches_eq ▸ hb) nil

/-- A text in one pair of parentheses, with suffixes behind them and blanks around each. -/
def enclosed (m : Margins) (inner : List Char) (ms : List Margins) : List Char :=
  m.around ('(' :: (inner ++ [')'])) ++ ms.flatMap (·.around ['[', ']'])

/-- What stands behind the parentheses is no more than suffixes and blanks. -/
theorem isBlank_or_mem_of_mem_suffixes {ms : List Margins}
    (h : c ∈ ms.flatMap (·.around ['[', ']'])) : isBlank c = true ∨ c ∈ ['[', ']'] := by
  obtain ⟨m, -, hc⟩ := List.mem_flatMap.mp h
  rw [Margins.around, List.mem_append, List.mem_append] at hc
  rcases hc with (hc | hc) | hc
  · exact .inl (m.before.2 c hc)
  · exact .inr hc
  · exact .inl (m.after.2 c hc)

@[simp] theorem trim_enclosed (m : Margins) (inner : List Char) :
    trim (enclosed m inner []) = '(' :: (inner ++ [')']) := by
  rw [enclosed, List.flatMap_nil, List.append_nil, trim_around, trim_append]

theorem suffix_trim_enclosed {ms : List Margins} (some_ : ms ≠ []) (m : Margins)
    (inner : List Char) : ['[', ']'] <:+ trim (enclosed m inner ms) := by
  rcases List.eq_nil_or_concat ms with rfl | ⟨front, last, rfl⟩
  · exact absurd rfl some_
  · let core := enclosed m inner front ++ last.before.1 ++ ['[', ']']
    have whole : enclosed m inner (front.concat last) = core ++ last.after.1 := by
      simp [core, enclosed, Margins.around]
    -- The blanks behind the last suffix are the only ones that could hide it.
    have blank : trim (core ++ last.after.1) = trim core :=
      trim_around ⟨⟨[], by simp⟩, last.after⟩ core
    rw [whole, blank]
    exact suffix_trim (List.cons_ne_nil _ _) (by simp [isBlank]) (List.suffix_append _ _)

section Enclosed

variable (bare : IsBare inner) (m : Margins) (ms : List Margins)
include bare

/-- Parentheses around all but suffixes leave one branch. -/
theorem branches_enclosed :
    branches 0 (enclosed m inner ms) = [enclosed m inner ms] := by
  have foreign {c : Char} (h : c ∈ ['(', ')', '|']) :
      c ∉ m.before.1 ∧ c ∉ m.after.1 ++ ms.flatMap (·.around ['[', ']']) := by
    have sign : isBlank c = false ∧ c ∉ ['[', ']'] := by
      revert c
      simp [isBlank]
    refine ⟨fun hc => by simp [m.before.2 c hc] at sign, fun hc => ?_⟩
    rcases List.mem_append.mp hc with hc | hc
    · simp [m.after.2 c hc] at sign
    · rcases isBlank_or_mem_of_mem_suffixes hc with blank | bracket
      · simp [blank] at sign
      · exact sign.2 bracket
  have shape : enclosed m inner ms =
      m.before.1 ++ '(' :: (inner ++ ')' :: (m.after.1 ++ ms.flatMap (·.around ['[', ']']))) := by
    simp [enclosed, Margins.around]
  rw [shape]
  refine branches_parentheses (fun c hc => (foreign ?_).1) bare (fun c hc => (foreign ?_).2)
    (foreign (by decide)).1 (foreign (by decide)).2
  · exact List.mem_append_left ['|'] hc
  · exact List.mem_append_left ['|'] hc

/-- In one pair of parentheses nil is offered where it is one of the alternatives inside; suffixes
behind them make an array of these. -/
theorem offersNil_enclosed_iff :
    OffersNil (enclosed m inner ms) ↔ ms = [] ∧ nilToken ∈ alternatives inner := by
  have branch_ := branches_enclosed bare m ms
  constructor
  · intro offers
    cases offers with
    | alone h nil =>
        rw [branch_, List.mem_singleton] at h
        have opening : '(' ∈ nilToken := by
          rw [← nil, mem_trim_iff (by decide), h]
          simp [enclosed, Margins.around]
        exact absurd opening (by decide)
    | @inside _ _ other h whole offers =>
        rw [branch_, List.mem_singleton] at h
        subst h
        have none_ : ms = [] := by
          by_contra some_
          exact not_suffix_append other (whole ▸ suffix_trim_enclosed some_ m inner)
        subst none_
        rw [trim_enclosed] at whole
        obtain ⟨rfl, -⟩ := List.append_inj' (List.cons.inj whole).2 rfl
        exact ⟨rfl, bare.offersNil_iff.mp offers⟩
  · rintro ⟨rfl, h⟩
    have only : enclosed m inner [] ∈ branches 0 (enclosed m inner []) :=
      branch_ ▸ List.mem_singleton_self _
    exact .inside only (trim_enclosed m inner) (bare.offersNil_iff.mpr h)

end Enclosed

/-- Whether an expression has no parentheses, or one pair that encloses all but its suffixes. -/
def IsFlat (cs : List Char) : Prop :=
  IsBare cs ∨ ∃ m inner ms, IsBare inner ∧ cs = enclosed m inner ms

/-- In a flat expression nil is found where it is offered, unless a suffix ends the last of several
alternatives. -/
theorem IsFlat.showsNil_iff (flat : IsFlat cs) :
    ShowsNil cs ↔ OffersNil cs ∧ ¬ ['[', ']'] <:+ trim cs := by
  rcases flat with bare | ⟨m, inner, ms, bare, rfl⟩
  · have bare' : ¬ ((trim cs).head? = some '(' ∧ (trim cs).getLast? = some ')') := by
      rintro ⟨opening, -⟩
      exact bare '(' (by decide) ((mem_trim_iff (by decide)).mp (List.mem_of_mem_head? opening))
    rw [ShowsNil, unwrap, if_neg bare', alternatives_trim, bare.offersNil_iff, and_comm]
  · rw [ShowsNil, offersNil_enclosed_iff bare]
    by_cases none_ : ms = []
    · subst none_
      rw [trim_enclosed, unwrap_append, alternatives_trim]
      simp only [not_suffix_append, not_false_eq_true, true_and, and_true]
    · simp only [suffix_trim_enclosed none_, not_true_eq_false, false_and, and_false]

end ClientForge.TypeExpr
