import ClientForge.Emission.JavascriptFile
import ClientForge.Proofs.Naming
import Mathlib.Data.List.Infix

/-!
# Reading comments back

Both languages read a block comment in the same way: it opens where a slash and a star
stand outside literals and other comments, and closes at the first star with a slash
behind it, whoever wrote them. A file is printed as lines of code that open nothing, with
comments between them. Reading such a file finds the comments as they were printed unless
a line of one of them holds the closing mark, and only then.
-/

namespace ClientForge.Emission

open ClientForge.Text

/-- A text that would close a comment. -/
def HoldsMark (cs : List Char) : Prop := ['*', '/'] <:+: cs

instance (cs : List Char) : Decidable (HoldsMark cs) :=
  inferInstanceAs (Decidable (['*', '/'] <:+: cs))

section Mark

variable {before after cs : List Char} {c : Char}

theorem not_holdsMark_of_notMem (h : '/' ∉ cs) : ¬ HoldsMark cs := fun found =>
  h (found.subset (by decide))

/-- The mark stands on one side of every other character. -/
theorem holdsMark_append_cons (h : c ∉ ['*', '/']) :
    HoldsMark (before ++ c :: after) ↔ HoldsMark before ∨ HoldsMark after :=
  infix_append_cons h

/-- Lines of which one holds the mark. -/
def Marked (lines : List String) : Prop := ∃ line ∈ lines, HoldsMark line.toList

@[simp] theorem not_marked_nil : ¬ Marked [] := nofun

@[simp] theorem marked_cons {line : String} {rest : List String} :
    Marked (line :: rest) ↔ HoldsMark line.toList ∨ Marked rest := by
  simp [Marked]

@[simp] theorem marked_append {a b : List String} : Marked (a ++ b) ↔ Marked a ∨ Marked b := by
  simp only [Marked, List.mem_append, or_and_right, exists_or]

theorem not_marked_of_notMem {lines : List String} (h : ∀ line ∈ lines, '/' ∉ line.toList) :
    ¬ Marked lines :=
  fun ⟨line, hl, found⟩ => not_holdsMark_of_notMem (h line hl) found

/-- The lines of a description hold the mark where the description does. -/
theorem marked_descriptionLines {description : Option String} :
    Marked (descriptionLines description) ↔
      ∃ text, description = some text ∧ HoldsMark text.toList := by
  cases description with
  | none => simp [descriptionLines]
  | some text =>
      by_cases empty : text = ""
      · subst empty
        simp [descriptionLines, HoldsMark]
      · have solid : ∀ c ∈ ['*', '/'], isBlank c = false := by
          simpa using (by decide : isBlank '*' = false ∧ isBlank '/' = false)
        have inside : ∀ c ∈ ['*', '/'], isLineEnd c = false := by
          simpa using (by decide : isLineEnd '*' = false ∧ isLineEnd '/' = false)
        have trimmed (cs : List Char) :
            HoldsMark (String.ofList (trimEnd cs)).toList ↔ HoldsMark cs := by
          rw [String.toList_ofList]
          exact infix_trimEnd (by decide) solid
        have kept : (∃ line ∈ lines (trim text.toList), HoldsMark line) ↔ HoldsMark text.toList :=
          (infix_lines (by decide) inside).trans (infix_trim (by decide) solid)
        simp only [Marked, descriptionLines, beq_iff_eq, empty, if_false, List.mem_map,
          exists_exists_and_eq_and, trimmed, kept, Option.some.injEq, exists_eq_left']

end Mark

/-- Where a reader of a source text stands. -/
inductive Mode
  | code
  /-- Behind a slash, which may open a comment. -/
  | slash
  /-- In a comment that ends with its line. -/
  | line
  /-- In a literal; a character behind a backslash does not end it. -/
  | literal (quote : Char) (escaped : Bool)
  /-- In a block comment, of which this was read, the last character first. -/
  | comment (read : List Char)
  deriving DecidableEq, Repr

namespace Mode

/-- The quotes of literals. -/
def isQuote (c : Char) : Bool := ['\x27', '\x22', '\x60'].contains c

/-- Where a character leads to, and the comment that it closes. -/
def step : Mode → Char → Mode × List (List Char)
  | code, c =>
    if c = '/' then (slash, []) else if isQuote c then (literal c false, []) else (code, [])
  | slash, c =>
    if c = '*' then (comment [], []) else if c = '/' then (line, [])
    else if isQuote c then (literal c false, []) else (code, [])
  | line, c => if c = '\n' then (code, []) else (line, [])
  | literal quote true, _ => (literal quote false, [])
  | literal quote false, c =>
    if c = '\x5c' then (literal quote true, []) else if c = quote then (code, [])
    else (literal quote false, [])
  | comment read, c =>
    if c = '/' ∧ read.head? = some '*' then (code, [read.tail.reverse])
    else (comment (c :: read), [])

/-- Where a text leads to, and the texts of the comments that it closes. -/
def scan : Mode → List Char → Mode × List (List Char)
  | m, [] => (m, [])
  | m, c :: rest => ((scan (m.step c).1 rest).1, (m.step c).2 ++ (scan (m.step c).1 rest).2)

variable {m n k : Mode} {a b : List Char} {xs ys : List (List Char)}

theorem scan_append (first : m.scan a = (n, xs)) (second : n.scan b = (k, ys)) :
    m.scan (a ++ b) = (k, xs ++ ys) := by
  induction a generalizing m xs with
  | nil =>
      obtain ⟨rfl, rfl⟩ := Prod.mk.inj first
      exact second
  | cons c a ih =>
      obtain ⟨rfl, rfl⟩ := Prod.mk.inj first
      rw [List.cons_append, scan, ih rfl, List.append_assoc]

/-- Whether no comment that is being read holds the closing mark. -/
def Sound : Mode → Prop
  | comment read => ¬ HoldsMark read.reverse
  | _ => True

theorem sound_step (sound : m.Sound) (c : Char) :
    (m.step c).1.Sound ∧ ∀ text ∈ (m.step c).2, ¬ HoldsMark text := by
  cases m with
  | comment read =>
      rw [step]
      split
      next closes =>
        refine ⟨trivial, fun text ht found => sound ?_⟩
        obtain rfl := List.mem_singleton.mp ht
        exact found.trans (List.reverse_infix.mpr (List.tail_suffix read).isInfix)
      next goesOn =>
        refine ⟨fun found => ?_, nofun⟩
        rw [HoldsMark, ← List.reverse_infix, List.reverse_reverse] at found
        rcases List.infix_cons_iff.mp found with first | later
        · obtain ⟨rest, whole⟩ := first
          obtain ⟨rfl, rfl⟩ := List.cons.inj whole
          exact goesOn ⟨rfl, rfl⟩
        · exact sound (List.reverse_infix.mp (by simpa using later))
  | slash =>
      simp only [step]
      split
      next => exact ⟨fun found : HoldsMark [] => absurd found (by decide), nofun⟩
      next =>
        repeat' split
        all_goals exact ⟨trivial, nofun⟩
  | code =>
      simp only [step]
      repeat' split
      all_goals exact ⟨trivial, nofun⟩
  | line =>
      simp only [step]
      split <;> exact ⟨trivial, nofun⟩
  | literal quote escaped =>
      cases escaped with
      | true => exact ⟨trivial, nofun⟩
      | false =>
          simp only [step]
          repeat' split
          all_goals exact ⟨trivial, nofun⟩

/-- No comment that is read holds the closing mark. -/
theorem not_holdsMark_of_mem_scan (sound : m.Sound) {text : List Char} (h : text ∈ (m.scan a).2) :
    ¬ HoldsMark text := by
  induction a generalizing m with
  | nil => cases h
  | cons c a ih =>
      obtain ⟨next, found⟩ := sound_step sound c
      rcases List.mem_append.mp h with h | h
      · exact found text h
      · exact ih next h

/-- A comment is read on while it does not hold the closing mark. -/
theorem scan_comment {read cs : List Char} (h : ¬ HoldsMark (read.reverse ++ cs)) :
    (comment read).scan cs = (comment (cs.reverse ++ read), []) := by
  induction cs generalizing read with
  | nil => rfl
  | cons c cs ih =>
      have goesOn : ¬ (c = '/' ∧ read.head? = some '*') := by
        rintro ⟨rfl, star⟩
        obtain ⟨before, rfl⟩ := List.head?_eq_some_iff.mp star
        exact h ⟨before.reverse, cs, by simp⟩
      have rest : ¬ HoldsMark ((c :: read).reverse ++ cs) := by simpa using h
      rw [scan, step, if_neg goesOn, ih rest]
      simp

end Mode

/-- A text of code that closes whatever it opens and holds no comment. -/
def Neutral (s : String) : Prop := Mode.code.scan s.toList = (.code, [])

instance (s : String) : Decidable (Neutral s) :=
  inferInstanceAs (Decidable (Mode.code.scan s.toList = (.code, [])))

section Neutral

variable {s t u : String}

theorem Neutral.append (hs : Neutral s) (ht : Neutral t) : Neutral (s ++ t) := by
  rw [Neutral, String.toList_append]
  exact Mode.scan_append hs ht

/-- A neutral text between two others. -/
theorem Neutral.between (h : Neutral t) (s u : String) (hs : Neutral s) (hu : Neutral u) :
    Neutral (s ++ t ++ u) :=
  (hs.append h).append hu

/-- Letters, digits, underscores and line feeds: the characters that names can hold. -/
def IsName (s : String) : Prop := ∀ c ∈ s.toList, isWordChar c = true ∨ c ∈ ['_', '\n']

instance (s : String) : Decidable (IsName s) := List.decidableBAll _ _

theorem IsName.append (hs : IsName s) (ht : IsName t) : IsName (s ++ t) := by
  intro c hc
  rw [String.toList_append, List.mem_append] at hc
  exact hc.elim (hs c) (ht c)

theorem isName_of_isWord (h : Naming.IsWord s) : IsName s := fun c hc => .inl (h c hc)

/-- A name opens neither a literal nor a comment. -/
theorem IsName.neutral (h : IsName s) : Neutral s := by
  rw [IsName] at h
  rw [Neutral]
  generalize s.toList = cs at h ⊢
  induction cs with
  | nil => rfl
  | cons c cs ih =>
      have other : c ∉ ['/', '\x27', '\x22', '\x60'] := by
        intro opens
        have named := h c List.mem_cons_self
        revert named
        simp only [List.mem_cons, List.not_mem_nil, or_false] at opens
        rcases opens with rfl | rfl | rfl | rfl <;> decide
      have first : Mode.code.step c = (.code, []) := by
        simp_all [Mode.step, Mode.isQuote]
      rw [Mode.scan, first, ih fun d hd => h d (List.mem_cons_of_mem c hd)]
      rfl

theorem neutral_of_isWord (h : Naming.IsWord s) : Neutral s := (isName_of_isWord h).neutral

/-- Every text can stand in a literal. -/
theorem neutral_quote (s : String) : Neutral (Literal.quote s) := by
  have body (cs : List Char) :
      (Mode.literal '\x27' false).scan (Literal.escape cs ++ ['\x27']) = (.code, []) := by
    induction cs with
    | nil => decide
    | cons c cs ih =>
        rw [Literal.escape]
        split
        next =>
          rw [List.cons_append, List.cons_append, Mode.scan, Mode.scan]
          exact ih
        next other =>
          have inside : (Mode.literal '\x27' false).step c = (.literal '\x27' false, []) := by
            rw [not_or] at other
            rw [Mode.step, if_neg other.2, if_neg other.1]
          rw [List.cons_append, Mode.scan, inside]
          exact ih
  rw [Neutral, Literal.quote, String.toList_ofList, Literal.write, Mode.scan]
  exact body s.toList

/-- What texts set together keep, a text with separators keeps. -/
theorem intercalate_keeps {P : String → Prop} (empty : P "")
    (append : ∀ s t, P s → P t → P (s ++ t)) {separator : String} {parts : List String}
    (hs : P separator) (h : ∀ part ∈ parts, P part) :
    P (separator.intercalate parts) := by
  induction parts with
  | nil => exact empty
  | cons part rest ih =>
      have first := h part List.mem_cons_self
      cases rest with
      | nil => simpa using first
      | cons next rest =>
          have more := ih fun p hp => h p (List.mem_cons_of_mem part hp)
          rw [String.intercalate_cons_cons]
          exact append _ _ (append _ _ first hs) more

theorem neutral_intercalate {separator : String} {parts : List String} (hs : Neutral separator)
    (h : ∀ part ∈ parts, Neutral part) : Neutral (separator.intercalate parts) :=
  intercalate_keeps (by decide) (fun _ _ => Neutral.append) hs h

end Neutral

/-- The characters of lines, each ended. -/
def charsOf (lines : List String) : List Char := lines.flatMap fun line => line.toList ++ ['\n']

theorem charsOf_append (a b : List String) : charsOf (a ++ b) = charsOf a ++ charsOf b :=
  List.flatMap_append

/-- A block comment, above a class or above a member of one. -/
structure Comment where
  ofMember : Bool
  lines : List String
  deriving DecidableEq, Repr

namespace Comment

def indent (c : Comment) : String := if c.ofMember then "    " else ""

/-- The lines as which a comment is printed. -/
def source (c : Comment) : List String :=
  (c.indent ++ "/**") :: (c.lines.map (commentLine c.indent) ++ [c.indent ++ " */"])

/-- What a comment holds between the marks that open and close it. -/
def inner (c : Comment) : List Char :=
  '*' :: '\n' :: (charsOf (c.lines.map (commentLine c.indent)) ++ (c.indent ++ " ").toList)

variable {c : Comment}

theorem charsOf_source (c : Comment) :
    charsOf c.source = c.indent.toList ++ '/' :: '*' :: (c.inner ++ ['*', '/', '\n']) := by
  simp [source, inner, charsOf]

/-- A line of a comment holds the mark where the text that it shows does. -/
theorem holdsMark_commentLine (c : Comment) (line : String) :
    HoldsMark (commentLine c.indent line).toList ↔ HoldsMark line.toList := by
  have opening : ¬ HoldsMark (c.indent ++ " *").toList := by
    cases member : c.ofMember <;> simp only [indent, member] <;> decide
  by_cases empty : line = ""
  · subst empty
    simpa [commentLine, HoldsMark] using opening
  · have shape : (commentLine c.indent line).toList =
        (c.indent ++ " *").toList ++ ' ' :: line.toList := by
      simp [commentLine, empty]
    rw [shape, holdsMark_append_cons (by decide), or_iff_right opening]

/-- A comment holds the mark where one of its lines does. -/
theorem holdsMark_inner : HoldsMark c.inner ↔ Marked c.lines := by
  have closing : ¬ HoldsMark (c.indent ++ " ").toList := by
    cases member : c.ofMember <;> simp only [indent, member] <;> decide
  have body (lines : List String) :
      HoldsMark (charsOf (lines.map (commentLine c.indent)) ++ (c.indent ++ " ").toList) ↔
        Marked lines := by
    induction lines with
    | nil => simpa [charsOf] using closing
    | cons line lines ih =>
        have shape : charsOf ((line :: lines).map (commentLine c.indent)) ++
            (c.indent ++ " ").toList = (commentLine c.indent line).toList ++ '\n' ::
              (charsOf (lines.map (commentLine c.indent)) ++ (c.indent ++ " ").toList) := by
          simp [charsOf]
        rw [shape, holdsMark_append_cons (by decide), holdsMark_commentLine, ih, marked_cons]
  have first : HoldsMark c.inner ↔
      HoldsMark (charsOf (c.lines.map (commentLine c.indent)) ++ (c.indent ++ " ").toList) := by
    have cut : c.inner = ['*'] ++ '\n' ::
        (charsOf (c.lines.map (commentLine c.indent)) ++ (c.indent ++ " ").toList) := rfl
    rw [cut, holdsMark_append_cons (by decide), or_iff_right (by decide)]
  rw [first, body]

/-- A comment that does not hold the mark is read as it was printed. -/
theorem scan_source (h : ¬ Marked c.lines) :
    Mode.code.scan (charsOf c.source) = (.code, [c.inner]) := by
  have indented : Mode.code.scan c.indent.toList = (.code, []) := by
    cases member : c.ofMember <;> simp only [indent, member] <;> decide
  have opening : Mode.code.scan ['/', '*'] = (.comment [], []) := by decide
  have body : (Mode.comment []).scan c.inner = (.comment c.inner.reverse, []) := by
    rw [Mode.scan_comment (mt holdsMark_inner.mp h), List.append_nil]
  have closing : (Mode.comment c.inner.reverse).scan ['*', '/', '\n'] = (.code, [c.inner]) := by
    simp [Mode.scan, Mode.step, Mode.isQuote]
  rw [charsOf_source]
  exact Mode.scan_append indented
    (Mode.scan_append opening (Mode.scan_append body closing))

end Comment

/-- Lines of code with comments between them. -/
inductive Woven : List String → List Comment → Prop
  | nil : Woven [] []
  | code {line : String} {lines : List String} {comments : List Comment} :
      Neutral line → Woven lines comments → Woven (line :: lines) comments
  | comment (c : Comment) {lines : List String} {comments : List Comment} :
      Woven lines comments → Woven (c.source ++ lines) (c :: comments)

namespace Woven

variable {lines more : List String} {comments others : List Comment}

theorem append (h : Woven lines comments) (hm : Woven more others) :
    Woven (lines ++ more) (comments ++ others) := by
  induction h with
  | nil => exact hm
  | code neutral _ ih => exact ih.code neutral
  | comment c _ ih =>
      rw [List.append_assoc]
      exact ih.comment c

theorem flatMap {α : Type} {f : α → List String} {g : α → List Comment} {xs : List α}
    (h : ∀ x ∈ xs, Woven (f x) (g x)) : Woven (xs.flatMap f) (xs.flatMap g) := by
  induction xs with
  | nil => exact .nil
  | cons x xs ih =>
      exact (h x List.mem_cons_self).append (ih fun y hy => h y (List.mem_cons_of_mem x hy))

theorem of_neutral (h : ∀ line ∈ lines, Neutral line) : Woven lines [] := by
  induction lines with
  | nil => exact .nil
  | cons line lines ih =>
      exact .code (h line List.mem_cons_self) (ih fun l hl => h l (List.mem_cons_of_mem line hl))

/-- Comments of which no line holds the mark are found as they were printed. -/
theorem scan_eq (h : Woven lines comments) (clean : ∀ c ∈ comments, ¬ Marked c.lines) :
    Mode.code.scan (charsOf lines) = (.code, comments.map (·.inner)) := by
  induction h with
  | nil => rfl
  | @code line lines comments neutral _ ih =>
      have ended : Mode.code.scan (line.toList ++ ['\n']) = (.code, []) :=
        Mode.scan_append neutral (by decide)
      exact Mode.scan_append ended (ih clean)
  | @comment c lines comments _ ih =>
      rw [charsOf_append]
      exact Mode.scan_append (Comment.scan_source (clean c List.mem_cons_self))
        (ih fun d hd => clean d (List.mem_cons_of_mem c hd))

/-- The comments are found as they were printed if and only if no line of one holds the
closing mark. -/
theorem scan_eq_iff (h : Woven lines comments) :
    Mode.code.scan (charsOf lines) = (.code, comments.map (·.inner)) ↔
      ∀ c ∈ comments, ¬ Marked c.lines := by
  refine ⟨fun found c hc marked => ?_, h.scan_eq⟩
  have read : c.inner ∈ (Mode.code.scan (charsOf lines)).2 := by
    rw [found]
    exact List.mem_map_of_mem hc
  have sound : Mode.code.Sound := trivial
  exact Mode.not_holdsMark_of_mem_scan sound read (Comment.holdsMark_inner.mpr marked)

end Woven

end ClientForge.Emission
