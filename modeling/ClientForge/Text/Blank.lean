/-!
# Blank characters, trimming and lines

The blanks are the characters that Unicode classes as white space or as
paragraph, segment or block separators. Trimming removes them at the ends and
nowhere else. A text is cut into lines at the line boundaries, which are fewer
than the blanks; a carriage return before a line feed is one boundary, and the
end of a text that closes its last line opens no further one.
-/

namespace ClientForge.Text

/-- White space in the sense of Unicode, the four information separators included. -/
def isBlank (c : Char) : Bool :=
  let n := c.toNat
  (9 ≤ n && n ≤ 13) || (28 ≤ n && n ≤ 32) || n == 0x85 || n == 0xA0 || n == 0x1680 ||
    (0x2000 ≤ n && n ≤ 0x200A) || n == 0x2028 || n == 0x2029 || n == 0x202F || n == 0x205F ||
    n == 0x3000

/-- The characters that end a line. -/
def isLineEnd (c : Char) : Bool :=
  let n := c.toNat
  (10 ≤ n && n ≤ 13) || (28 ≤ n && n ≤ 30) || n == 0x85 || n == 0x2028 || n == 0x2029

def trimStart (cs : List Char) : List Char := cs.dropWhile isBlank

def trimEnd (cs : List Char) : List Char := (cs.reverse.dropWhile isBlank).reverse

/-- Blanks at both ends are dropped. -/
def trim (cs : List Char) : List Char := trimEnd (trimStart cs)

theorem length_trimStart_le (cs : List Char) : (trimStart cs).length ≤ cs.length :=
  (List.dropWhile_sublist isBlank).length_le

theorem length_trimEnd_le (cs : List Char) : (trimEnd cs).length ≤ cs.length := by
  have h := (List.dropWhile_sublist (l := cs.reverse) isBlank).length_le
  simpa [trimEnd] using h

theorem length_trim_le (cs : List Char) : (trim cs).length ≤ cs.length :=
  Nat.le_trans (length_trimEnd_le _) (length_trimStart_le _)

/-- The string without blanks at either end. -/
def strip (s : String) : String := String.ofList (trim s.toList)

/-- The string without blanks at its end. -/
def stripEnd (s : String) : String := String.ofList (trimEnd s.toList)

/-- Cut into lines, with the characters of the open line given last first. -/
private def cutLines : List Char → List Char → List (List Char)
  | [], line => if line.isEmpty then [] else [line.reverse]
  | '\r' :: '\n' :: rest, line => line.reverse :: cutLines rest []
  | c :: rest, line =>
    if isLineEnd c then line.reverse :: cutLines rest [] else cutLines rest (c :: line)

/-- The lines of a text without their ends. -/
def lines (cs : List Char) : List (List Char) := cutLines cs []

/-- Split at every occurrence of a separator; empty pieces are kept. -/
def splitAt (sep : Char) : List Char → List (List Char)
  | [] => [[]]
  | c :: rest =>
    if c = sep then [] :: splitAt sep rest
    else
      match splitAt sep rest with
      | [] => [[c]]
      | piece :: more => (c :: piece) :: more

/-- The pieces of a string between occurrences of a separator. -/
def split (sep : Char) (s : String) : List String :=
  (splitAt sep s.toList).map String.ofList

/-- Join pieces with a separator between neighbours. -/
def joinWith (sep : List Char) : List (List Char) → List Char
  | [] => []
  | [piece] => piece
  | piece :: more => piece ++ sep ++ joinWith sep more

def startsWith (s start : String) : Bool := start.toList.isPrefixOf s.toList

def endsWith (s ending : String) : Bool := ending.toList.isSuffixOf s.toList

def isAsciiDigit (c : Char) : Bool := '0' ≤ c && c ≤ '9'

def isAsciiUpper (c : Char) : Bool := 'A' ≤ c && c ≤ 'Z'

def isAsciiLower (c : Char) : Bool := 'a' ≤ c && c ≤ 'z'

def isAsciiLetter (c : Char) : Bool := isAsciiUpper c || isAsciiLower c

/-- Letters and digits of the ASCII range. -/
def isWordChar (c : Char) : Bool := isAsciiLetter c || isAsciiDigit c

/-- Order of texts by code points; a text comes before each of its extensions. -/
def codeLess : List Char → List Char → Bool
  | _, [] => false
  | [], _ :: _ => true
  | a :: as, b :: bs => a.toNat < b.toNat || (a == b && codeLess as bs)

section Infix

variable {pattern before after cs : List Char} {c : Char}

/-- A text is found on one side of a character that it does not hold. -/
theorem infix_append_cons (h : c ∉ pattern) :
    pattern <:+: before ++ c :: after ↔ pattern <:+: before ∨ pattern <:+: after := by
  constructor
  · rintro ⟨s, t, whole⟩
    rcases List.append_eq_append_iff.mp whole with ⟨more, cut, tail⟩ | ⟨more, cut, tail⟩
    · exact .inl ⟨s, more, cut.symm⟩
    · cases more with
      | nil => exact .inl ⟨s, [], by simpa using cut⟩
      | cons d more =>
          obtain ⟨rfl, rfl⟩ := List.cons.inj tail
          rcases List.append_eq_append_iff.mp cut with ⟨rest, -, inside⟩ | ⟨rest, -, inside⟩
          · exact absurd (inside ▸ by simp) h
          · cases rest with
            | nil =>
                rw [List.nil_append] at inside
                exact absurd (inside ▸ List.mem_cons_self) h
            | cons d rest =>
                obtain ⟨rfl, rfl⟩ := List.cons.inj inside
                exact .inr ⟨rest, t, rfl⟩
  · rintro (h | h)
    · exact h.trans (List.prefix_append _ _).isInfix
    · exact h.trans ((List.suffix_cons c after).trans (List.suffix_append _ _)).isInfix

section Parts

variable (some_ : pattern ≠ [])
include some_

theorem infix_trimStart (h : ∀ c ∈ pattern, isBlank c = false) :
    pattern <:+: trimStart cs ↔ pattern <:+: cs := by
  induction cs with
  | nil => rfl
  | cons c cs ih =>
      rw [trimStart, List.dropWhile_cons]
      split
      next blank =>
        have outside : c ∉ pattern := fun inside => by simp [h c inside] at blank
        have skipped : pattern <:+: [] ++ c :: cs ↔ pattern <:+: cs := by
          rw [infix_append_cons outside, List.infix_nil, or_iff_right some_]
        exact ih.trans skipped.symm
      next => rfl

theorem infix_trimEnd (h : ∀ c ∈ pattern, isBlank c = false) :
    pattern <:+: trimEnd cs ↔ pattern <:+: cs := by
  have turned : pattern.reverse <:+: trimStart cs.reverse ↔ pattern.reverse <:+: cs.reverse :=
    infix_trimStart (by simpa using some_) fun c hc => h c (List.mem_reverse.mp hc)
  rwa [List.reverse_infix, ← List.reverse_reverse (trimStart cs.reverse), List.reverse_infix]
    at turned

/-- Trimming keeps every text without blanks. -/
theorem infix_trim (h : ∀ c ∈ pattern, isBlank c = false) :
    pattern <:+: trim cs ↔ pattern <:+: cs :=
  (infix_trimEnd some_ h).trans (infix_trimStart some_ h)

private theorem infix_cutLines (h : ∀ c ∈ pattern, isLineEnd c = false) (cs line : List Char) :
    (∃ l ∈ cutLines cs line, pattern <:+: l) ↔ pattern <:+: line.reverse ++ cs := by
  have outside {c : Char} (ends : isLineEnd c = true) : c ∉ pattern :=
    fun inside => by simp [h c inside] at ends
  fun_induction cutLines cs line with
  | case1 line empty =>
      obtain rfl := List.isEmpty_iff.mp empty
      simpa using some_
  | case2 line _ => simp
  | case3 rest line ih =>
      have ends : pattern <:+: [] ++ '\n' :: rest ↔ pattern <:+: rest := by
        rw [infix_append_cons (outside (by decide)), List.infix_nil, or_iff_right some_]
      rw [infix_append_cons (outside (by decide)), ← List.nil_append ('\n' :: rest), ends]
      simp only [List.mem_cons, or_and_right, exists_or, exists_eq_left]
      exact or_congr_right ih
  | case4 c rest line _ ends ih =>
      rw [infix_append_cons (outside ends)]
      simp only [List.mem_cons, or_and_right, exists_or, exists_eq_left]
      exact or_congr_right ih
  | case5 c rest line _ _ ih =>
      rw [List.append_cons, ← List.reverse_cons]
      exact ih

/-- A text without line ends is found where one of the lines holds it. -/
theorem infix_lines (h : ∀ c ∈ pattern, isLineEnd c = false) :
    (∃ line ∈ lines cs, pattern <:+: line) ↔ pattern <:+: cs :=
  infix_cutLines some_ h cs []

end Parts

end Infix

end ClientForge.Text
