import ClientForge.Proofs.NilUnion

/-!
# Parentheses around expressions

Array suffixes are taken off the end of an expression, then one pair of parentheses around
what is left, and the rest is cut at every bar. So parentheses around an expression hide its
own suffixes, which become parts of names, and parentheses that it has already, of which only
the outer pair is taken off. An expression means the same with parentheses around it exactly
if it has neither, or if its alternatives stand for any value whether or not the inner
parentheses are taken off.
-/

namespace ClientForge.TypeExpr

open ClientForge.Text

variable {cs left right : List Char} {tokens : List (List Char)} {c : Char} {e : String}

/-! ## Trimmed expressions -/

theorem trim_trim (cs : List Char) : trim (trim cs) = trim cs := by
  refine trim_of_ends ?_ ?_
  · have start : trimEnd (trimStart cs) <+: trimStart cs := by
      rw [trimEnd, ← List.reverse_suffix, List.reverse_reverse]
      exact List.dropWhile_suffix isBlank
    have first := List.head?_dropWhile_not isBlank cs
    obtain ⟨more, whole⟩ := start
    rw [← trimStart, ← whole] at first
    rw [trim]
    cases rest : trimEnd (trimStart cs) with
    | nil => rfl
    | cons c rest_ =>
        rw [rest] at first
        simpa using first
  · have last := List.head?_dropWhile_not isBlank (trimStart cs).reverse
    rw [trim, trimEnd, List.getLast?_reverse]
    cases same : ((trimStart cs).reverse.dropWhile isBlank).head? with
    | none => rfl
    | some c => simpa [same] using last

/-- What is not blank stays. -/
theorem mem_trim_iff (sign : isBlank c = false) : c ∈ trim cs ↔ c ∈ cs := by
  rw [← List.singleton_infix_iff, ← List.singleton_infix_iff]
  exact infix_trim (List.cons_ne_nil c []) (by simpa using sign)

/-- What an expression without a suffix at its end names. -/
theorem parse_of_plain (plain : ¬ ['[', ']'] <:+ trim e.toList) :
    parse e =
      (union ((alternatives (unwrap (trim e.toList))).filter (· ≠ nilToken)),
        (alternatives (unwrap (trim e.toList))).contains nilToken) := by
  rw [parse, suffixes_reverse (trim_trim _) plain]
  simp [Reference.arrays]

/-- An expression with a suffix at its end names an array. -/
theorem kind_parse_of_suffix (suffix : ['[', ']'] <:+ trim e.toList) :
    (parse e).1.kind = .array := by
  obtain ⟨core, whole⟩ := suffix
  rw [parse, ← whole, List.reverse_append]
  exact Reference.kind_arrays_succ _ _

/-! ## Alternatives -/

/-- The alternatives on both sides of a bar. -/
theorem alternatives_append (left right : List Char) :
    alternatives (left ++ '|' :: right) = alternatives left ++ alternatives right := by
  rw [alternatives, splitAt_append_cons, List.map_append, List.filter_append]
  rfl

/-- The only alternative of a text without a bar is the text. -/
theorem eq_trim_of_mem_alternatives {token : List Char} (single : '|' ∉ cs)
    (h : token ∈ alternatives cs) : token = trim cs := by
  rw [alternatives, splitAt_of_notMem single] at h
  exact List.mem_singleton.mp (List.mem_filter.mp h).1

theorem exists_mem_splitAt {sep : Char} (h : c ∈ cs) (other : c ≠ sep) :
    ∃ piece ∈ splitAt sep cs, c ∈ piece := by
  induction cs with
  | nil => cases h
  | cons d cs ih =>
      by_cases same : d = sep
      · rw [splitAt, if_pos same]
        have inside := (List.mem_cons.mp h).resolve_left fun first => other (first.trans same)
        obtain ⟨piece, hp, hc⟩ := ih inside
        exact ⟨piece, List.mem_cons_of_mem _ hp, hc⟩
      · obtain ⟨piece, more, cut, whole⟩ := splitAt_cons_of_ne same cs
        rw [whole]
        rcases List.mem_cons.mp h with rfl | inside
        · exact ⟨c :: piece, List.mem_cons_self, List.mem_cons_self⟩
        · obtain ⟨found, hf, hc⟩ := ih inside
          rw [cut] at hf
          rcases List.mem_cons.mp hf with rfl | hf
          · exact ⟨d :: found, List.mem_cons_self, List.mem_cons_of_mem d hc⟩
          · exact ⟨found, List.mem_cons_of_mem _ hf, hc⟩

/-- Every character that is neither blank nor a bar is in some alternative. -/
theorem exists_mem_alternatives (h : c ∈ cs) (sign : isBlank c = false) (other : c ≠ '|') :
    ∃ token ∈ alternatives cs, c ∈ token := by
  obtain ⟨piece, hp, hc⟩ := exists_mem_splitAt h other
  have kept : c ∈ trim piece := (mem_trim_iff sign).mpr hc
  exact ⟨trim piece, List.mem_filter.mpr ⟨List.mem_map_of_mem hp,
    by simpa using List.ne_nil_of_mem kept⟩, kept⟩

/-- Some alternative other than nil holds each character that is not of the word. -/
theorem exists_mem_concrete (h : c ∈ cs) (sign : isBlank c = false) (other : c ≠ '|')
    (foreign : c ∉ nilToken) :
    ∃ token ∈ (alternatives cs).filter (· ≠ nilToken), c ∈ token := by
  obtain ⟨token, ht, hc⟩ := exists_mem_alternatives h sign other
  refine ⟨token, List.mem_filter.mpr ⟨ht, ?_⟩, hc⟩
  simpa using fun same : token = nilToken => foreign (same ▸ hc)

/-! ## What a union can be -/

theorem union_of_many (many : 2 ≤ tokens.length) : union tokens = .scalar .any := by
  unfold union
  split
  · simp at many
  · rfl

/-- A union is an array only if it is the bare word for one. -/
theorem eq_of_kind_union (h : (union tokens).kind = .array) : tokens = [arrayToken] := by
  unfold union at h
  split at h
  next token =>
    unfold single at h
    split at h
    next same => rw [same]
    next => split at h <;> cases h
  · cases h

theorem exists_of_mem_dependsOn_union {name : String} (h : name ∈ (union tokens).dependsOn) :
    ∃ token ∈ tokens, name = String.ofList token := by
  unfold union at h
  split at h
  next token => exact ⟨token, List.mem_singleton_self _, mem_dependsOn_single h⟩
  · cases h

/-! ## Expressions in parentheses -/

/-- An expression in parentheses. -/
def grouped (e : String) : String := "(" ++ e ++ ")"

/-- Whether a text opens and ends with a parenthesis, as one pair around it would. -/
def IsEnclosed (cs : List Char) : Prop := cs.head? = some '(' ∧ cs.getLast? = some ')'

instance (cs : List Char) : Decidable (IsEnclosed cs) :=
  inferInstanceAs (Decidable (_ ∧ _))

theorem IsEnclosed.exists_eq (h : IsEnclosed cs) : ∃ inner, cs = '(' :: (inner ++ [')']) := by
  obtain ⟨first, last⟩ := h
  cases cs with
  | nil => cases first
  | cons c rest =>
      obtain rfl := Option.some.inj first
      rcases List.eq_nil_or_concat rest with rfl | ⟨inner, d, rfl⟩
      · exact absurd last (by decide)
      · rw [List.concat_eq_append, ← List.cons_append, List.getLast?_concat] at last
        rw [List.concat_eq_append, Option.some.inj last]
        exact ⟨inner, rfl⟩

theorem isEnclosed_append (inner : List Char) : IsEnclosed ('(' :: (inner ++ [')'])) :=
  ⟨rfl, by rw [← List.cons_append, List.getLast?_concat]⟩

theorem unwrap_append (inner : List Char) : unwrap ('(' :: (inner ++ [')'])) = trim inner := by
  have enclosed := isEnclosed_append inner
  rw [IsEnclosed] at enclosed
  rw [unwrap, if_pos enclosed]
  simp

theorem trim_append (inner : List Char) :
    trim ('(' :: (inner ++ [')'])) = '(' :: (inner ++ [')']) := by
  obtain ⟨first, last⟩ := isEnclosed_append inner
  refine trim_of_ends ?_ ?_
  · rw [first]
    decide
  · rw [last]
    decide

theorem not_suffix_append (inner : List Char) : ¬ ['[', ']'] <:+ '(' :: (inner ++ [')']) := by
  rintro ⟨front, whole⟩
  have last := congrArg List.getLast? whole
  rw [(isEnclosed_append inner).2, List.getLast?_append_of_ne_nil _ (by decide)] at last
  exact absurd last (by decide)

theorem toList_grouped (e : String) : (grouped e).toList = '(' :: (e.toList ++ [')']) := by
  simp [grouped]

/-- Parentheses leave the alternatives of an expression, its own suffixes and parentheses
as parts of them. -/
theorem parse_grouped (e : String) :
    parse (grouped e) =
      (union ((alternatives (trim e.toList)).filter (· ≠ nilToken)),
        (alternatives (trim e.toList)).contains nilToken) := by
  have whole : trim (grouped e).toList = '(' :: (e.toList ++ [')']) := by
    rw [toList_grouped, trim_append]
  rw [parse_of_plain (by rw [whole]; exact not_suffix_append _), whole, unwrap_append]

/-- A suffix behind parentheses makes an array of what stands in them. -/
theorem parse_grouped_suffix (e : String) :
    parse (grouped e ++ "[]") = (.array (parse (grouped e)).1, false) := by
  have written : (grouped e ++ "[]").toList = '(' :: (e.toList ++ [')']) ++ brackets 1 := by
    rw [String.toList_append, toList_grouped]
    rfl
  rw [parse_eq written (trim_append _) (List.cons_ne_nil _ _) (not_suffix_append _),
    unwrap_append, parse_grouped]
  simp [Reference.arrays]

/-- Whether parentheses around an expression change nothing, and a suffix behind them makes
an array of what it names. -/
structure IsTransparent (e : String) : Prop where
  alone : parse (grouped e) = parse e
  before_suffix : parse (grouped e ++ "[]") = (.array (parse e).1, false)

theorem isTransparent_iff : IsTransparent e ↔ parse (grouped e) = parse e := by
  refine ⟨IsTransparent.alone, fun same => ⟨same, ?_⟩⟩
  rw [parse_grouped_suffix, same]

/-- A suffix at the end of an expression is hidden by parentheses around it. -/
theorem parse_grouped_ne_of_suffix (suffix : ['[', ']'] <:+ trim e.toList) :
    parse (grouped e) ≠ parse e := by
  intro same
  have array : (parse (grouped e)).1.kind = .array := by
    rw [same, kind_parse_of_suffix suffix]
  rw [parse_grouped] at array
  have closing : ']' ∈ trim e.toList := suffix.subset (by decide)
  obtain ⟨token, ht, hc⟩ :=
    exists_mem_concrete closing (by decide) (by decide) (by decide)
  rw [eq_of_kind_union array] at ht
  obtain rfl := List.mem_singleton.mp ht
  exact absurd hc (by decide)

/-- Without a bar, parentheses around other ones become a part of a name. -/
theorem parse_grouped_ne_of_single (plain : ¬ ['[', ']'] <:+ trim e.toList)
    (enclosed : IsEnclosed (trim e.toList)) (bar : '|' ∉ trim e.toList) :
    parse (grouped e) ≠ parse e := by
  intro same
  obtain ⟨inner, whole⟩ := enclosed.exists_eq
  have opening : '(' ∈ trim e.toList := whole ▸ List.mem_cons_self
  have other : trim e.toList ≠ nilToken := fun h => absurd (h ▸ opening) (by decide)
  have names : (parse (grouped e)).1 = .named (String.ofList (trim e.toList)) := by
    rw [parse_grouped, alternatives_of_single (trim_trim _) (List.ne_nil_of_mem opening) bar,
      List.filter_cons_of_pos (by simpa using other), List.filter_nil, union,
      single_of_mem (by decide) opening]
  have named : String.ofList (trim e.toList) ∈ (parse e).1.dependsOn := by
    rw [← same, names]
    exact List.mem_singleton_self _
  rw [parse_of_plain plain, whole, unwrap_append] at named
  obtain ⟨token, ht, hn⟩ := exists_of_mem_dependsOn_union named
  have inside : '|' ∉ trim inner := by
    rw [mem_trim_iff (by decide)]
    rw [whole] at bar
    exact fun h => bar (List.mem_cons_of_mem _ (List.mem_append_left _ h))
  have token_ := eq_trim_of_mem_alternatives inside (List.mem_filter.mp ht).1
  have length := congrArg List.length (String.ofList_inj.mp hn)
  have shorter := length_trim_le inner
  rw [token_, trim_trim] at length
  simp only [List.length_cons, List.length_append] at length
  omega

/-- Alternatives on both sides of a bar stand for any value if something other than nil is on
either side. -/
theorem union_alternatives_of_bar (inner : List Char) (bar : '|' ∈ '(' :: (inner ++ [')'])) :
    union ((alternatives ('(' :: (inner ++ [')']))).filter (· ≠ nilToken)) = .scalar .any := by
  have inside : '|' ∈ inner := by simpa using bar
  obtain ⟨left, right, rfl⟩ := List.append_of_mem inside
  have cut : '(' :: (left ++ '|' :: right ++ [')']) = ('(' :: left) ++ '|' :: (right ++ [')']) := by
    simp
  have opening : '(' ∈ '(' :: left := List.mem_cons_self
  have closing : ')' ∈ right ++ [')'] := by simp
  obtain ⟨first, hf, -⟩ := exists_mem_concrete opening (by decide) (by decide) (by decide)
  obtain ⟨last, hl, -⟩ := exists_mem_concrete closing (by decide) (by decide) (by decide)
  have some_ := List.length_pos_of_mem hf
  have some_' := List.length_pos_of_mem hl
  refine union_of_many ?_
  rw [cut, alternatives_append, List.filter_append, List.length_append]
  omega

/-- Parentheses around an expression are transparent exactly if no suffix ends it, and if it
has parentheses around it already, then alternatives stand in these that name any value, and
nil is one of them without these parentheses exactly if it is one with them. -/
theorem transparent_iff (e : String) :
    IsTransparent e ↔
      ¬ ['[', ']'] <:+ trim e.toList ∧
      (IsEnclosed (trim e.toList) →
        '|' ∈ trim e.toList ∧
        union ((alternatives (unwrap (trim e.toList))).filter (· ≠ nilToken)) = .scalar .any ∧
        (nilToken ∈ alternatives (unwrap (trim e.toList)) ↔
          nilToken ∈ alternatives (trim e.toList))) := by
  rw [isTransparent_iff]
  by_cases suffix : ['[', ']'] <:+ trim e.toList
  · simp only [parse_grouped_ne_of_suffix suffix, suffix, not_true_eq_false, false_and]
  · by_cases enclosed : IsEnclosed (trim e.toList)
    · by_cases bar : '|' ∈ trim e.toList
      · obtain ⟨inner, whole⟩ := enclosed.exists_eq
        have any : union ((alternatives (trim e.toList)).filter (· ≠ nilToken)) = .scalar .any := by
          rw [whole] at bar ⊢
          exact union_alternatives_of_bar inner bar
        rw [parse_grouped, any, parse_of_plain suffix, Prod.mk.injEq, Bool.eq_iff_iff]
        simp only [List.contains_iff_mem, suffix, enclosed, bar, not_false_eq_true, true_and,
          forall_const]
        exact and_congr eq_comm Iff.comm
      · simp only [parse_grouped_ne_of_single suffix enclosed bar, suffix, enclosed, bar,
          not_false_eq_true, true_and, forall_const, false_and]
    · have same : parse (grouped e) = parse e := by
        rw [IsEnclosed] at enclosed
        rw [parse_grouped, parse_of_plain suffix, unwrap, if_neg enclosed]
      simp only [same, suffix, enclosed, not_false_eq_true, true_and, false_implies]

/-- In parentheses the suffix of an array becomes a part of a name that no document declares,
and so do parentheses in parentheses. -/
theorem suffix_lost_in_parentheses :
    parse "Money[]" = (.array (.named "Money"), false) ∧
    parse "(Money[])" = (.named "Money[]", false) ∧ ¬ IsTransparent "Money[]" ∧
    parse "(Money)" = (.named "Money", false) ∧
    parse "((Money))" = (.named "(Money)", false) ∧ ¬ IsTransparent "(Money)" := by
  have array : parse "Money[]" = (.array (.named "Money"), false) := by decide
  have array_ : parse (grouped "Money[]") = (.named "Money[]", false) := by decide
  have named : parse "(Money)" = (.named "Money", false) := by decide
  have named_ : parse (grouped "(Money)") = (.named "(Money)", false) := by decide
  refine ⟨array, array_, fun h => ?_, named, named_, fun h => ?_⟩
  · exact absurd (array_.symm.trans (h.alone.trans array)) (by decide)
  · exact absurd (named_.symm.trans (h.alone.trans named)) (by decide)

end ClientForge.TypeExpr
