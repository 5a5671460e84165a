import ClientForge.Proofs.Naming
import ClientForge.Proofs.Reference
import Mathlib.Data.List.Infix

/-!
# Unions with nil

Array suffixes are taken from the end of a whole expression, before its alternatives are
told apart. A type name that is united with `nil`, on either side, keeps what it names and
becomes nullable. With a suffix behind the name that is no longer so: before `nil` the
suffix does not end the expression and is taken for a part of the name, and behind `nil` it
makes an array of the whole union, and an array is not nullable.
-/

namespace ClientForge.TypeExpr

open ClientForge.Text

variable {cs name core left right : List Char} {c d : Char} {n : Nat}

/-! ## Blanks at the ends -/

theorem trimStart_of_head (h : cs.head?.any isBlank = false) : trimStart cs = cs := by
  cases cs with
  | nil => rfl
  | cons c cs => exact List.dropWhile_cons_of_neg (by simpa using h)

theorem trimEnd_of_getLast (h : cs.getLast?.any isBlank = false) : trimEnd cs = cs := by
  rw [← List.head?_reverse] at h
  have reversed := trimStart_of_head h
  rw [trimStart] at reversed
  rw [trimEnd, reversed, List.reverse_reverse]

theorem trim_of_ends (first : cs.head?.any isBlank = false)
    (last : cs.getLast?.any isBlank = false) : trim cs = cs := by
  rw [trim, trimStart_of_head first, trimEnd_of_getLast last]

/-- A text that trimming leaves alone has no blanks at its ends. -/
theorem ends_of_trim (h : trim cs = cs) :
    cs.head?.any isBlank = false ∧ cs.getLast?.any isBlank = false := by
  have start : trimStart cs = cs := by
    refine (List.dropWhile_sublist isBlank).eq_of_length_le ?_
    have length := length_trimEnd_le (trimStart cs)
    rw [← trim, h] at length
    exact length
  constructor
  · have first := List.head?_dropWhile_not isBlank cs
    rw [← trimStart, start] at first
    cases cs with
    | nil => rfl
    | cons c cs => simpa using first
  · have last := List.head?_dropWhile_not isBlank cs.reverse
    have reversed : cs.reverse.dropWhile isBlank = cs.reverse := by
      rw [trim, start, trimEnd] at h
      rw [← List.reverse_reverse (List.dropWhile _ _), h]
    rw [reversed, List.head?_reverse] at last
    cases same : cs.getLast? with
    | none => rfl
    | some c => simpa [same] using last

theorem trim_cons_blank (blank : isBlank c = true) (cs : List Char) : trim (c :: cs) = trim cs := by
  rw [trim, trim, trimStart, trimStart, List.dropWhile_cons_of_pos blank]

theorem head?_append_of_some (some_ : cs ≠ []) (more : List Char) :
    (cs ++ more).head? = cs.head? := by
  cases cs with
  | nil => exact absurd rfl some_
  | cons c cs => rfl

/-- A blank behind a text is dropped. -/
theorem trim_append_blank (blank : isBlank c = true) (h : trim cs = cs) (some_ : cs ≠ []) :
    trim (cs ++ [c]) = cs := by
  obtain ⟨first, last⟩ := ends_of_trim h
  have start : (cs ++ [c]).head?.any isBlank = false := by
    rwa [head?_append_of_some some_]
  have reversed : trimStart cs.reverse = cs.reverse :=
    trimStart_of_head (by rwa [List.head?_reverse])
  rw [trimStart] at reversed
  rw [trim, trimStart_of_head start, trimEnd, List.reverse_append, List.reverse_singleton,
    List.singleton_append, List.dropWhile_cons_of_pos blank, reversed, List.reverse_reverse]

/-! ## Suffixes and alternatives -/

/-- Some array suffixes. -/
def brackets : Nat → List Char
  | 0 => []
  | n + 1 => '[' :: ']' :: brackets n

theorem brackets_succ (n : Nat) : brackets (n + 1) = brackets n ++ ['[', ']'] := by
  induction n with
  | zero => rfl
  | succ n ih => exact congrArg (['[', ']'] ++ ·) ih

theorem mem_brackets (h : c ∈ brackets n) : c = '[' ∨ c = ']' := by
  induction n with
  | zero => cases h
  | succ n ih =>
      rcases List.mem_cons.mp h with rfl | h
      · exact .inl rfl
      · exact (List.mem_cons.mp h).elim .inr ih

/-- Suffixes are not blank, so trimming ends where they do. -/
theorem trim_append_brackets (trimmed : trim core = core) (some_ : core ≠ []) (n : Nat) :
    trim (core ++ brackets n) = core ++ brackets n := by
  obtain ⟨first, last⟩ := ends_of_trim trimmed
  refine trim_of_ends ?_ ?_
  · rwa [head?_append_of_some some_]
  · cases n with
    | zero => rwa [brackets, List.append_nil]
    | succ n =>
        rw [brackets_succ, ← List.append_assoc, List.getLast?_append]
        rfl

theorem suffixes_closing (rest : List Char) :
    suffixes (']' :: '[' :: rest) = ((suffixes rest).1 + 1, (suffixes rest).2) := rfl

/-- Suffixes behind an expression are counted. -/
theorem suffixes_brackets (n : Nat) (rest : List Char) :
    suffixes ((brackets n).reverse ++ rest) = ((suffixes rest).1 + n, (suffixes rest).2) := by
  induction n with
  | zero => rfl
  | succ n ih =>
      rw [brackets_succ, List.reverse_append]
      change suffixes (']' :: '[' :: ((brackets n).reverse ++ rest)) = _
      rw [suffixes_closing, ih, Nat.add_assoc]

/-- An expression that no suffix ends is all that stands before suffixes. -/
theorem suffixes_reverse (trimmed : trim core = core) (plain : ¬ ['[', ']'] <:+ core) :
    suffixes core.reverse = (0, core.reverse) := by
  have last := (ends_of_trim trimmed).2
  rw [← List.reverse_prefix] at plain
  rw [← List.head?_reverse] at last
  generalize core.reverse = reversed at last plain
  unfold suffixes
  split
  · exact absurd ⟨_, rfl⟩ plain
  next c rest _ =>
    rw [if_neg]
    simpa using last
  · rfl

/-- What an expression without suffixes names, with some suffixes behind it. -/
theorem parse_eq {token : String} (written : token.toList = core ++ brackets n)
    (trimmed : trim core = core) (some_ : core ≠ []) (plain : ¬ ['[', ']'] <:+ core) :
    parse token =
      (.arrays n (union ((alternatives (unwrap core)).filter (· ≠ nilToken))),
        (alternatives (unwrap core)).contains nilToken && n == 0) := by
  have whole : trim token.toList = core ++ brackets n := by
    rw [written, trim_append_brackets trimmed some_]
  rw [parse, whole, List.reverse_append, suffixes_brackets, suffixes_reverse trimmed plain]
  simp only [List.reverse_reverse, Nat.zero_add]

theorem alternatives_of_single (trimmed : trim cs = cs) (some_ : cs ≠ []) (single : '|' ∉ cs) :
    alternatives cs = [cs] := by
  rw [alternatives, splitAt_of_notMem single]
  simp [trimmed, some_]

/-- The alternatives of a union of two. -/
theorem alternatives_of_pair (first : trim left = left) (second : trim right = right)
    (some_ : left ≠ []) (some_' : right ≠ []) (single : '|' ∉ left) (single' : '|' ∉ right) :
    alternatives (left ++ " | ".toList ++ right) = [left, right] := by
  have written : left ++ " | ".toList ++ right = (left ++ [' ']) ++ '|' :: (' ' :: right) := by
    simp
  have cut : '|' ∉ left ++ [' '] := by simpa using single
  have cut' : '|' ∉ ' ' :: right := by simpa using single'
  rw [alternatives, written, splitAt_append cut, splitAt_of_notMem cut']
  simp [trim_append_blank (c := ' ') (by decide) first some_,
    trim_cons_blank (c := ' ') (by decide), second, some_, some_']

/-- A suffix at the end of a union ends its last alternative. -/
theorem suffix_of_pair (suffix : ['[', ']'] <:+ left ++ " | ".toList ++ right) :
    ['[', ']'] <:+ right := by
  have tail : ' ' :: right <:+ left ++ " | ".toList ++ right := ⟨left ++ [' ', '|'], by simp⟩
  rcases List.suffix_or_suffix_of_suffix suffix tail with inside | outside
  · rcases List.suffix_cons_iff.mp inside with same | inside
    · exact absurd (List.cons.inj same).1 (by decide)
    · exact inside
  · exact absurd (outside.subset List.mem_cons_self) (by decide)

/-- What a union of two names, with some suffixes behind it. -/
theorem parse_pair {token : String}
    (written : token.toList = left ++ " | ".toList ++ right ++ brackets n)
    (first : trim left = left) (second : trim right = right)
    (some_ : left ≠ []) (some_' : right ≠ []) (single : '|' ∉ left) (single' : '|' ∉ right)
    (bare : ¬ (left.head? = some '(' ∧ right.getLast? = some ')'))
    (plain : ¬ ['[', ']'] <:+ right) :
    parse token =
      (.arrays n (union ([left, right].filter (· ≠ nilToken))),
        [left, right].contains nilToken && n == 0) := by
  have head : (left ++ " | ".toList ++ right).head? = left.head? := by
    rw [List.append_assoc, head?_append_of_some some_]
  have last : (left ++ " | ".toList ++ right).getLast? = right.getLast? :=
    List.getLast?_append_of_ne_nil _ some_'
  have trimmed : trim (left ++ " | ".toList ++ right) = left ++ " | ".toList ++ right :=
    trim_of_ends (head ▸ (ends_of_trim first).1) (last ▸ (ends_of_trim second).2)
  have unwrapped : unwrap (left ++ " | ".toList ++ right) = left ++ " | ".toList ++ right := by
    rw [unwrap, head, last, if_neg bare]
  rw [parse_eq written trimmed (List.append_ne_nil_of_right_ne_nil _ some_')
      fun suffix => plain (suffix_of_pair suffix),
    unwrapped, alternatives_of_pair first second some_ some_' single single']

/-- No name of a scalar and no other word of the language has a bracket or a parenthesis. -/
theorem single_of_mem (foreign : c ∈ ['(', ')', '[', ']']) (h : c ∈ cs) :
    single cs = .named (String.ofList cs) := by
  have other (word : String) (plain : ∀ d ∈ ['(', ')', '[', ']'], d ∉ word.toList) :
      String.ofList cs ≠ word := by
    rintro rfl
    exact plain c foreign (by simpa using h)
  have array : cs ≠ arrayToken := fun same => other "array" (by simp) (same ▸ rfl)
  have scalar : scalarOf? cs = none := by
    unfold scalarOf?
    split <;> first | rfl | exact absurd ‹String.ofList cs = _› (other _ (by simp))
  rw [single, if_neg array, scalar]

/-! ## Names and their unions with nil -/

/-- Whether a text is one name, of a scalar or of a type: it has no blanks at its ends, no
bar and no suffix in it, and no parentheses around it. -/
structure IsName (cs : List Char) : Prop where
  some_ : cs ≠ []
  trimmed : trim cs = cs
  single : '|' ∉ cs
  bare : ¬ (cs.head? = some '(' ∧ cs.getLast? = some ')')
  elementary : ¬ ['[', ']'] <:+: cs

instance (cs : List Char) : Decidable (IsName cs) :=
  decidable_of_iff (cs ≠ [] ∧ trim cs = cs ∧ '|' ∉ cs ∧
      ¬ (cs.head? = some '(' ∧ cs.getLast? = some ')') ∧ ¬ ['[', ']'] <:+: cs)
    ⟨fun ⟨some_, trimmed, single, bare, elementary⟩ => ⟨some_, trimmed, single, bare, elementary⟩,
      fun ⟨some_, trimmed, single, bare, elementary⟩ => ⟨some_, trimmed, single, bare, elementary⟩⟩

/-- A name with some array suffixes. -/
def suffixed (name : String) (n : Nat) : String := name ++ String.ofList (brackets n)

/-- Whether uniting an expression with nil, on either side, keeps what it names and makes it
nullable, and no suffix is taken for a part of a name. -/
structure UnitesWithNil (e : String) : Prop where
  behind : parse (e ++ " | nil") = ((parse e).1, true)
  before : parse ("nil | " ++ e) = ((parse e).1, true)
  elementary : ∀ expression ∈ [e, e ++ " | nil", "nil | " ++ e],
    ∀ typeName ∈ (parse expression).1.dependsOn, ¬ ['[', ']'] <:+: typeName.toList

namespace IsName

variable (isName : IsName name)
include isName

theorem not_suffix : ¬ ['[', ']'] <:+ name := fun suffix => isName.elementary suffix.isInfix

theorem unwrap_eq : unwrap name = name := by rw [unwrap, if_neg isName.bare]

/-- What a name with suffixes names: the array of what the name alone does. -/
theorem parse_suffixed {token : String} (written : token.toList = name ++ brackets n) :
    parse token = (.arrays n (union ([name].filter (· ≠ nilToken))),
      [name].contains nilToken && n == 0) := by
  rw [parse_eq written isName.trimmed isName.some_ isName.not_suffix, isName.unwrap_eq,
    alternatives_of_single isName.trimmed isName.some_ isName.single]

/-- Before nil a name with suffixes is one alternative, suffixes and all. -/
theorem parse_behind {token : String}
    (written : token.toList = name ++ brackets n ++ " | nil".toList) :
    parse token = (union ([name ++ brackets n].filter (· ≠ nilToken)), true) := by
  have single : '|' ∉ name ++ brackets n := by
    rw [List.mem_append, not_or]
    exact ⟨isName.single, fun h => absurd (mem_brackets h) (by decide)⟩
  have shape : token.toList = name ++ brackets n ++ " | ".toList ++ nilToken ++ brackets 0 := by
    rw [written]
    simp [brackets, nilToken]
  rw [parse_pair shape (trim_append_brackets isName.trimmed isName.some_ n) (by decide)
    (List.append_ne_nil_of_left_ne_nil isName.some_ _) (by decide) single (by decide)
    (fun h => absurd h.2 (by decide)) (by decide)]
  rw [← List.singleton_append, List.filter_append]
  simp [Reference.arrays]

/-- Behind nil the suffixes of a name end the whole union. -/
theorem parse_before {token : String}
    (written : token.toList = "nil | ".toList ++ name ++ brackets n) :
    parse token = (.arrays n (union ([name].filter (· ≠ nilToken))), n == 0) := by
  have shape : token.toList = nilToken ++ " | ".toList ++ name ++ brackets n := by
    rw [written]
    simp [nilToken]
  rw [parse_pair shape (by decide) isName.trimmed (by decide) isName.some_ (by decide)
    isName.single (fun h => absurd h.1 (by decide)) isName.not_suffix]
  simp

end IsName

theorem mem_dependsOn_single {typeName : String} (h : typeName ∈ (single cs).dependsOn) :
    typeName = String.ofList cs := by
  unfold single at h
  split at h
  · cases h
  · split at h
    · cases h
    · exact List.mem_singleton.mp h

/-- The only type that a union of one alternative depends on has its name. -/
theorem mem_dependsOn_union {typeName : String}
    (h : typeName ∈ (union ([cs].filter (· ≠ nilToken))).dependsOn) :
    typeName = String.ofList cs := by
  by_cases other : cs = nilToken
  · rw [List.filter_cons_of_neg (by simpa using other)] at h
    cases h
  · rw [List.filter_cons_of_pos (by simpa using other)] at h
    exact mem_dependsOn_single h

/-- Uniting a name with nil keeps what it names and makes it nullable exactly if no suffix
stands behind the name. Before nil the suffixes become a part of the name, and behind nil the
array that they make is not nullable. -/
theorem unites_with_nil_iff {typeName : String} (h : IsName typeName.toList) (n : Nat) :
    (UnitesWithNil (suffixed typeName n) ↔ n = 0) ∧
    (n ≠ 0 →
      parse (suffixed typeName n ++ " | nil") = (.named (suffixed typeName n), true) ∧
      parse ("nil | " ++ suffixed typeName n) = ((parse (suffixed typeName n)).1, false)) := by
  have written : (suffixed typeName n).toList = typeName.toList ++ brackets n := by
    simp [suffixed]
  have alone := h.parse_suffixed written
  have written_behind : (suffixed typeName n ++ " | nil").toList =
      typeName.toList ++ brackets n ++ " | nil".toList := by
    rw [String.toList_append, written]
  have written_before : ("nil | " ++ suffixed typeName n).toList =
      "nil | ".toList ++ typeName.toList ++ brackets n := by
    rw [String.toList_append, written, List.append_assoc]
  have behind := h.parse_behind written_behind
  have before := h.parse_before written_before
  have deep (some_ : n ≠ 0) :
      parse (suffixed typeName n ++ " | nil") = (.named (suffixed typeName n), true) ∧
      parse ("nil | " ++ suffixed typeName n) = ((parse (suffixed typeName n)).1, false) := by
    have closed : ']' ∈ typeName.toList ++ brackets n := by
      obtain ⟨m, rfl⟩ := Nat.exists_eq_succ_of_ne_zero some_
      exact List.mem_append_right _ (by simp [brackets])
    have other : typeName.toList ++ brackets n ≠ nilToken := by
      intro same
      rw [same] at closed
      exact absurd closed (by decide)
    constructor
    · rw [behind, List.filter_cons_of_pos (by simpa using other), List.filter_nil, union,
        single_of_mem (by decide) closed, ← written, String.ofList_toList]
    · rw [before, alone]
      simp [some_]
  refine ⟨⟨fun unites => ?_, ?_⟩, deep⟩
  · by_contra some_
    exact absurd ((deep some_).2.symm.trans unites.before) (by simp)
  · rintro rfl
    rw [brackets, List.append_nil] at behind
    refine ⟨by rw [behind, alone]; rfl, by rw [before, alone]; rfl, ?_⟩
    have plain {e : String}
        (union_ : (parse e).1 = union ([typeName.toList].filter (· ≠ nilToken))) :
        ∀ t ∈ (parse e).1.dependsOn, ¬ ['[', ']'] <:+: t.toList := by
      intro t ht
      rw [union_] at ht
      rw [mem_dependsOn_union ht, String.toList_ofList]
      exact h.elementary
    simp only [List.forall_mem_cons]
    exact ⟨plain (by rw [alone]; rfl), plain (by rw [behind]), plain (by rw [before]; rfl),
      fun e he => absurd he List.not_mem_nil⟩

theorem money_unites_with_nil :
    IsName "Money".toList ∧ UnitesWithNil (suffixed "Money" 0) :=
  ⟨by decide, (unites_with_nil_iff (by decide) 0).1.mpr rfl⟩

/-- An array of a type that is united with nil names a type that no document declares, or is
not nullable. -/
theorem suffix_lost_before_nil :
    parse "Money[]" = (.array (.named "Money"), false) ∧
    parse "Money[] | nil" = (.named "Money[]", true) ∧
    parse "nil | Money[]" = (.array (.named "Money"), false) ∧
    ¬ UnitesWithNil "Money[]" := by
  have alone : parse "Money[]" = (.array (.named "Money"), false) := by decide
  have behind : parse "Money[] | nil" = (.named "Money[]", true) := by decide
  have before : parse "nil | Money[]" = (.array (.named "Money"), false) := by decide
  refine ⟨alone, behind, before, fun unites => ?_⟩
  exact absurd ((before.symm.trans unites.before)) (by decide)

end ClientForge.TypeExpr
