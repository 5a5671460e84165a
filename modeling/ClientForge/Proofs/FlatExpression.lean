import ClientForge.Proofs.Parentheses
import Mathlib.Data.List.TakeWhile

/-!
# Flat expressions

A flat expression is written from words: alternatives with bars between them, perhaps one pair
of parentheses around all of them, array suffixes behind, and blanks on both sides of each of
these. Reading it gives back what it was written from, whatever the blanks are: an array for
each suffix, and under the arrays what the only word besides `nil` denotes, or any value. The
parentheses make no difference, since suffixes are taken off the whole expression before its
alternatives are told apart.
-/

namespace ClientForge

namespace Reference

variable {base r : Reference} {n : Nat}

/-- Arrays over a reference, some levels of them, each named after its items. -/
inductive IsOver (base : Reference) : Nat → Reference → Prop
  | self : IsOver base 0 base
  | array {n : Nat} {items : Reference} (below : IsOver base n items) :
      IsOver base (n + 1) (.holding .array (items.name ++ "[]") items)

theorem arrays_succ (n : Nat) (r : Reference) : r.arrays (n + 1) = (r.arrays n).array := by
  induction n generalizing r with
  | zero => rfl
  | succ n ih => exact ih r.array

theorem isOver_arrays (base : Reference) (n : Nat) : IsOver base n (base.arrays n) := by
  induction n with
  | zero => exact .self
  | succ n ih =>
      rw [arrays_succ]
      exact .array ih

theorem IsOver.element_eq (h : IsOver base n r) : r.element = base.element := by
  induction h with
  | self => rfl
  | array _ ih => exact ih

end Reference

namespace TypeExpr

open ClientForge.Text

variable {bs cs pattern : List Char} {c : Char} {token : String}

/-! ## Blanks around a text -/

/-- Some blanks. -/
abbrev Blanks := { cs : List Char // ∀ c ∈ cs, isBlank c = true }

/-- Blanks on both sides. -/
structure Margins where
  before : Blanks
  after : Blanks

namespace Margins

variable (m : Margins)

/-- A text with blanks on both sides. -/
def around (cs : List Char) : List Char := m.before.1 ++ cs ++ m.after.1

theorem mem_around (sign : isBlank c = false) : c ∈ m.around cs ↔ c ∈ cs := by
  have outside (b : Blanks) : c ∉ b.1 := fun h => by simp [b.2 c h] at sign
  simp [around, outside]

end Margins

/-- A text is what trimming leaves of it, with blanks around. -/
theorem exists_eq_around (cs : List Char) : ∃ m : Margins, cs = m.around (trim cs) := by
  refine ⟨⟨⟨cs.takeWhile isBlank, fun c h => List.mem_takeWhile_imp h⟩,
    ⟨((trimStart cs).reverse.takeWhile isBlank).reverse, fun c h =>
      List.mem_takeWhile_imp (List.mem_reverse.mp h)⟩⟩, ?_⟩
  have rest : trim cs ++ ((trimStart cs).reverse.takeWhile isBlank).reverse = trimStart cs := by
    rw [trim, trimEnd, ← List.reverse_append, List.takeWhile_append_dropWhile,
      List.reverse_reverse]
  rw [Margins.around, List.append_assoc, rest, trimStart, List.takeWhile_append_dropWhile]

theorem trimStart_append (blank : ∀ c ∈ bs, isBlank c = true) (cs : List Char) :
    trimStart (bs ++ cs) = trimStart cs :=
  List.dropWhile_append_of_pos blank

theorem trimEnd_append (cs : List Char) (blank : ∀ c ∈ bs, isBlank c = true) :
    trimEnd (cs ++ bs) = trimEnd cs := by
  rw [trimEnd, List.reverse_append,
    List.dropWhile_append_of_pos fun c h => blank c (List.mem_reverse.mp h), trimEnd]

@[simp] theorem trim_around (m : Margins) (cs : List Char) : trim (m.around cs) = trim cs := by
  have none_ : trimStart m.after.1 = [] := List.dropWhile_eq_nil_iff.mpr m.after.2
  rw [trim, Margins.around, List.append_assoc, trimStart_append m.before.2, trimStart,
    List.dropWhile_append]
  split
  next empty =>
    rw [← trimStart, none_, trim, trimStart, List.isEmpty_iff.mp empty]
  next => rw [trimEnd_append _ m.after.2, trim, trimStart]

/-- What ends a text and is not blank still ends it when it is trimmed. -/
theorem suffix_trim (some_ : pattern ≠ []) (sign : ∀ c ∈ pattern, isBlank c = false)
    (h : pattern <:+ cs) : pattern <:+ trim cs := by
  obtain ⟨front, rfl⟩ := h
  obtain ⟨c, rest, rfl⟩ := List.exists_cons_of_ne_nil some_
  have start : ∃ front', trimStart (front ++ c :: rest) = front' ++ c :: rest := by
    rw [trimStart, List.dropWhile_append]
    split
    · exact ⟨[], List.dropWhile_cons_of_neg (by simp [sign c List.mem_cons_self])⟩
    · exact ⟨_, rfl⟩
  obtain ⟨front', start⟩ := start
  have last : (front' ++ c :: rest).getLast?.any isBlank = false := by
    rw [List.getLast?_append_of_ne_nil _ some_, List.getLast?_eq_some_getLast some_,
      Option.any_some]
    exact sign _ (List.getLast_mem some_)
  rw [trim, start, trimEnd_of_getLast last]
  exact List.suffix_append front' _

/-! ## Suffixes and alternatives -/

theorem suffixes_cons_blank (blank : isBlank c = true) (cs : List Char) :
    suffixes (c :: cs) = suffixes cs := by
  conv_lhs => unfold suffixes
  split
  next same =>
    rw [(List.cons.inj same).1] at blank
    exact absurd blank (by decide)
  next same =>
    obtain ⟨rfl, rfl⟩ := List.cons.inj same
    rw [if_pos blank]
  next same => cases same

theorem suffixes_append (blank : ∀ c ∈ bs, isBlank c = true) (cs : List Char) :
    suffixes (bs ++ cs) = suffixes cs := by
  induction bs with
  | nil => rfl
  | cons b bs ih =>
      rw [List.cons_append, suffixes_cons_blank (blank b List.mem_cons_self),
        ih fun c h => blank c (List.mem_cons_of_mem b h)]

theorem suffixes_dropWhile (cs : List Char) : suffixes (cs.dropWhile isBlank) = suffixes cs := by
  conv_rhs => rw [← List.takeWhile_append_dropWhile (p := isBlank) (l := cs)]
  exact (suffixes_append (fun c h => List.mem_takeWhile_imp h) _).symm

/-- Array suffixes with blanks around each of them are counted. -/
theorem suffixes_flatMap (ms : List Margins) (cs : List Char) :
    suffixes ((ms.flatMap (·.around ['[', ']'])).reverse ++ cs) =
      ((suffixes cs).1 + ms.length, (suffixes cs).2) := by
  induction ms generalizing cs with
  | nil => rfl
  | cons m ms ih =>
      have turned : ((m :: ms).flatMap (·.around ['[', ']'])).reverse ++ cs =
          (ms.flatMap (·.around ['[', ']'])).reverse ++
            (m.after.1.reverse ++ ']' :: '[' :: (m.before.1.reverse ++ cs)) := by
        simp [Margins.around]
      have back (b : Blanks) : ∀ c ∈ b.1.reverse, isBlank c = true := fun c h =>
        b.2 c (List.mem_reverse.mp h)
      rw [turned, ih, suffixes_append (back m.after), suffixes_closing,
        suffixes_append (back m.before), List.length_cons]
      simp only [Nat.add_assoc, Nat.add_comm 1]

/-- Suffixes behind a text, blanks around it and around each of them. -/
theorem parse_of_suffixes {ms : List Margins} (some_ : trim cs ≠ [])
    (plain : ¬ ['[', ']'] <:+ trim cs)
    (written : token.toList = cs ++ ms.flatMap (·.around ['[', ']'])) :
    parse token =
      (.arrays ms.length (union ((alternatives (unwrap (trim cs))).filter (· ≠ nilToken))),
        (alternatives (unwrap (trim cs))).contains nilToken && ms.length == 0) := by
  obtain ⟨m, whole⟩ := exists_eq_around cs
  obtain ⟨first, -⟩ := ends_of_trim (trim_trim cs)
  have start : trimStart token.toList =
      trim cs ++ (m.after.1 ++ ms.flatMap (·.around ['[', ']'])) := by
    rw [written, whole, trim_around, trim_trim, Margins.around, List.append_assoc,
      List.append_assoc, trimStart_append m.before.2]
    exact trimStart_of_head (by rwa [head?_append_of_some some_])
  have back : ∀ c ∈ m.after.1.reverse, isBlank c = true := fun c h =>
    m.after.2 c (List.mem_reverse.mp h)
  have counted : suffixes (trim token.toList).reverse = (ms.length, (trim cs).reverse) := by
    rw [trim, trimEnd, List.reverse_reverse, suffixes_dropWhile, start, List.reverse_append,
      List.reverse_append, List.append_assoc, suffixes_flatMap, suffixes_append back,
      suffixes_reverse (trim_trim cs) plain, Nat.zero_add]
  rw [parse, counted]
  simp only [List.reverse_reverse]

theorem alternatives_of_notMem (single : '|' ∉ cs) :
    alternatives cs = [trim cs].filter (!·.isEmpty) := by
  rw [alternatives, splitAt_of_notMem single, List.map_singleton]

/-- A text with a bar is cut at the last one. -/
theorem exists_last_bar (bar : '|' ∈ cs) :
    ∃ left right, cs = left ++ '|' :: right ∧ '|' ∉ right := by
  induction cs with
  | nil => cases bar
  | cons c cs ih =>
      by_cases later : '|' ∈ cs
      · obtain ⟨left, right, rfl, single⟩ := ih later
        exact ⟨c :: left, right, rfl, single⟩
      · obtain rfl := (List.mem_cons.mp bar).resolve_right later
        exact ⟨[], cs, rfl, later⟩

/-- Blanks around an expression are no part of its alternatives. -/
theorem alternatives_around (m : Margins) (cs : List Char) :
    alternatives (m.around cs) = alternatives cs := by
  have front (bs : List Char) (blank : ∀ c ∈ bs, isBlank c = true) :
      alternatives (bs ++ (cs ++ m.after.1)) = alternatives (cs ++ m.after.1) := by
    induction bs with
    | nil => rfl
    | cons b bs ih =>
        have blank_ := blank b List.mem_cons_self
        have other : b ≠ '|' := by
          rintro rfl
          exact absurd blank_ (by decide)
        obtain ⟨piece, more, cut, whole⟩ := splitAt_cons_of_ne other (bs ++ (cs ++ m.after.1))
        rw [← ih fun c h => blank c (List.mem_cons_of_mem b h), List.cons_append, alternatives,
          whole, alternatives, cut, List.map_cons, List.map_cons, trim_cons_blank blank_]
  have single : '|' ∉ m.after.1 := fun h => absurd (m.after.2 _ h) (by decide)
  rw [Margins.around, List.append_assoc, front m.before.1 m.before.2]
  -- The blanks behind touch the last alternative only, which is trimmed in its turn.
  have trimmed (right : List Char) : trim (right ++ m.after.1) = trim right :=
    trim_around ⟨⟨[], by simp⟩, m.after⟩ right
  by_cases bar : '|' ∈ cs
  · obtain ⟨left, right, rfl, last⟩ := exists_last_bar bar
    have last_ : '|' ∉ right ++ m.after.1 := by simp [last, single]
    rw [List.append_assoc, List.cons_append, alternatives_append, alternatives_append,
      alternatives_of_notMem last, alternatives_of_notMem last_, trimmed]
  · have bar_ : '|' ∉ cs ++ m.after.1 := by simp [bar, single]
    rw [alternatives_of_notMem bar, alternatives_of_notMem bar_, trimmed]

theorem alternatives_trim (cs : List Char) : alternatives (trim cs) = alternatives cs := by
  obtain ⟨m, whole⟩ := exists_eq_around cs
  conv_rhs => rw [whole]
  exact (alternatives_around m _).symm

/-- The alternatives of texts with bars between them are the texts, but for blanks. -/
theorem alternatives_joinWith {texts : List (List Char)} (single : ∀ t ∈ texts, '|' ∉ t) :
    alternatives (joinWith ['|'] texts) = (texts.map trim).filter (!·.isEmpty) := by
  fun_induction joinWith ['|'] texts with
  | case1 => rfl
  | case2 t => exact alternatives_of_notMem (single t List.mem_cons_self)
  | case3 t more _ ih =>
      have others := ih fun u hu => single u (List.mem_cons_of_mem t hu)
      rw [List.append_assoc, List.singleton_append, alternatives_append,
        alternatives_of_notMem (single t List.mem_cons_self), others, ← List.filter_append]
      rfl

/-- A suffix at the end of an expression ends one of its alternatives. -/
theorem exists_alternative_of_suffix (h : ['[', ']'] <:+ trim cs) :
    ∃ token ∈ alternatives cs, ['[', ']'] <:+ token := by
  have ending {right : List Char} (suffix : ['[', ']'] <:+ right) :
      ['[', ']'] <:+ trim right ∧ trim right ∈ [trim right].filter (!·.isEmpty) := by
    have kept := suffix_trim (List.cons_ne_nil _ _) (by simp [isBlank]) suffix
    refine ⟨kept, List.mem_filter.mpr ⟨List.mem_singleton_self _, ?_⟩⟩
    have some_ := List.ne_nil_of_mem (kept.subset List.mem_cons_self)
    simpa using some_
  rw [← alternatives_trim]
  by_cases bar : '|' ∈ trim cs
  · obtain ⟨left, right, whole, last⟩ := exists_last_bar bar
    rw [whole] at h ⊢
    have suffix : ['[', ']'] <:+ right := by
      rcases List.suffix_or_suffix_of_suffix h (List.suffix_append left ('|' :: right)) with
        inside | outside
      · rcases List.suffix_cons_iff.mp inside with same | inside
        · exact absurd (List.cons.inj same).1 (by decide)
        · exact inside
      · exact absurd (outside.subset List.mem_cons_self) (by decide)
    rw [alternatives_append, alternatives_of_notMem last]
    exact ⟨_, List.mem_append_right _ (ending suffix).2, (ending suffix).1⟩
  · rw [alternatives_of_notMem bar]
    exact ⟨_, (ending h).2, (ending h).1⟩

/-! ## Flat expressions -/

/-- An alternative: a word without bars and parentheses that no suffix ends, between blanks. -/
structure Alternative where
  word : List Char
  margins : Margins
  some_ : word ≠ []
  trimmed : trim word = word
  flat : ∀ c ∈ ['|', '(', ')'], c ∉ word
  plain : ¬ ['[', ']'] <:+ word

/-- A flat expression: alternatives, with blanks around a pair of parentheses if there is one,
and around each suffix. -/
structure FlatExpression where
  alternatives : List Alternative
  some_ : alternatives ≠ []
  parentheses : Option Margins
  suffixes : List Margins

namespace FlatExpression

variable (e : FlatExpression)

/-- The alternatives as they are written, with bars between them. -/
def joined : List Char := joinWith ['|'] (e.alternatives.map fun a => a.margins.around a.word)

/-- The expression before its suffixes. -/
def core : List Char :=
  match e.parentheses with
  | none => e.joined
  | some m => m.around ('(' :: (e.joined ++ [')']))

/-- The expression as it is written. -/
def text : String := String.ofList (e.core ++ e.suffixes.flatMap (·.around ['[', ']']))

def words : List (List Char) := e.alternatives.map (·.word)

/-- The number of array suffixes. -/
def depth : Nat := e.suffixes.length

/-- What stands under the arrays: what the only word besides nil denotes, or any value. -/
def base : Reference :=
  match e.words.filter (· ≠ nilToken) with
  | [word] => single word
  | _ => .scalar .any

theorem words_ne_nil : e.words ≠ [] := by simp [words, e.some_]

theorem notMem_joined {c : Char} (h : c ∈ ['(', ')']) : c ∉ e.joined := by
  intro inside
  rcases mem_joinWith inside with bar | ⟨t, ht, inside⟩
  · rw [List.mem_singleton.mp bar] at h
    exact absurd h (by decide)
  · obtain ⟨a, -, rfl⟩ := List.mem_map.mp ht
    have sign : ∀ d ∈ ['(', ')'], isBlank d = false := by simp [isBlank]
    exact a.flat c (List.mem_cons_of_mem '|' h) ((a.margins.mem_around (sign c h)).mp inside)

@[simp] theorem alternatives_joined : TypeExpr.alternatives e.joined = e.words := by
  rw [joined, alternatives_joinWith, List.map_map, words]
  · have same : e.alternatives.map (trim ∘ fun a => a.margins.around a.word) =
        e.alternatives.map (·.word) :=
      List.map_congr_left fun a _ => (trim_around a.margins a.word).trans a.trimmed
    rw [same, List.filter_eq_self]
    intro word h
    obtain ⟨a, -, rfl⟩ := List.mem_map.mp h
    simpa using a.some_
  · intro t ht
    obtain ⟨a, -, rfl⟩ := List.mem_map.mp ht
    rw [a.margins.mem_around (by decide)]
    exact a.flat '|' (by decide)

/-- Before its suffixes a flat expression is not empty, and no other suffix ends it; without
the parentheses its alternatives are its words. -/
theorem core_spec : trim e.core ≠ [] ∧ ¬ ['[', ']'] <:+ trim e.core ∧
    TypeExpr.alternatives (unwrap (trim e.core)) = e.words := by
  unfold core
  split
  next =>
    have bare : ¬ ((trim e.joined).head? = some '(' ∧ (trim e.joined).getLast? = some ')') := by
      rintro ⟨opening, -⟩
      have inside := List.mem_of_mem_head? opening
      rw [mem_trim_iff (by decide)] at inside
      exact e.notMem_joined (by decide) inside
    refine ⟨fun empty => e.words_ne_nil ?_, fun suffix => ?_, ?_⟩
    · rw [← e.alternatives_joined, ← alternatives_trim, empty]
      rfl
    · obtain ⟨word, hw, ending⟩ := exists_alternative_of_suffix suffix
      rw [alternatives_joined] at hw
      obtain ⟨a, -, rfl⟩ := List.mem_map.mp hw
      exact a.plain ending
    · rw [unwrap, if_neg bare, alternatives_trim, alternatives_joined]
  next m =>
    rw [trim_around, trim_append, unwrap_append, alternatives_trim, alternatives_joined]
    exact ⟨List.cons_ne_nil _ _, not_suffix_append _, rfl⟩

end FlatExpression

/-- Reading a flat expression, with any blanks, gives an array for each of its suffixes over
what the only word besides nil denotes, or over any value. It is nullable exactly if nil is
one of the words and there is no suffix. -/
theorem parse_flat (e : FlatExpression) :
    ∃ r, parse e.text = (r, decide (nilToken ∈ e.words ∧ e.depth = 0)) ∧
      Reference.IsOver e.base e.depth r ∧ r.WellFormed ∧ r.element = e.base.element := by
  obtain ⟨some_, plain, words⟩ := e.core_spec
  have layers := Reference.isOver_arrays e.base e.depth
  have written : e.text.toList = e.core ++ e.suffixes.flatMap (·.around ['[', ']']) :=
    String.toList_ofList
  have nullable : (e.words.contains nilToken && e.suffixes.length == 0) =
      decide (nilToken ∈ e.words ∧ e.depth = 0) := by
    rw [Bool.eq_iff_iff]
    simp [FlatExpression.depth]
  refine ⟨_, ?_, layers, (wellFormed_union _).arrays _, layers.element_eq⟩
  rw [parse_of_suffixes some_ plain written, words, nullable]
  rfl

/-- An expression with parentheses and suffixes, and with blanks here and there. -/
def idRows : FlatExpression :=
  let none_ : Blanks := ⟨[], by simp⟩
  let one : Blanks := ⟨[' '], by simp [isBlank]⟩
  let id : Alternative := ⟨['I', 'd'], ⟨one, none_⟩, by simp, rfl, by simp, by decide⟩
  let nil : Alternative :=
    ⟨nilToken, ⟨one, one⟩, by simp [nilToken], rfl, by simp [nilToken], by decide⟩
  ⟨[id, nil], by simp, some ⟨none_, none_⟩, [⟨none_, none_⟩, ⟨one, none_⟩]⟩

theorem parse_idRows : idRows.text = "( Id| nil )[] []" ∧
    ∃ r, parse "( Id| nil )[] []" = (r, false) ∧ Reference.IsOver (.named "Id") 2 r ∧
      r.WellFormed := by
  have text : idRows.text = "( Id| nil )[] []" := rfl
  obtain ⟨r, read, element, wellFormed, -⟩ := parse_flat idRows
  rw [text] at read
  exact ⟨text, r, read, element, wellFormed⟩

end TypeExpr

end ClientForge
