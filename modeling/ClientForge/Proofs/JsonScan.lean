import ClientForge.Proofs.JsonString
import ClientForge.Proofs.JsonText
import Mathlib.Algebra.Order.BigOperators.Group.List

/-!
# The tokens of a JSON text

A scanner takes a text apart from left to right. It is between two tokens, in a word, or in a
string, where it goes on as the reader of strings does. A word is one of the three constants or a
number, blanks separate, and brackets, commas and colons are tokens of one character.

A text that is copied into a string is a token of its own length only if the reader of strings
takes each of its characters for itself. Any other text loses characters on the way: one closes the
string, or several make up one, and what is read in it is shorter than it.
-/

namespace ClientForge.Json

open ClientForge.Text

/-! ## Words -/

/-- What may follow the digits of a number and its fraction. -/
def isExponent : List Char → Bool
  | [] => true
  | e :: rest =>
    let digits := match rest with
      | '+' :: digits => digits
      | '-' :: digits => digits
      | digits => digits
    (e == 'e' || e == 'E') && !digits.isEmpty && digits.all isAsciiDigit

/-- What may follow the whole part of a number. -/
def isFraction : List Char → Bool
  | '.' :: digits =>
    !(digits.takeWhile isAsciiDigit).isEmpty && isExponent (digits.dropWhile isAsciiDigit)
  | rest => isExponent rest

/-- A number without its sign. Only zero itself opens with a zero. -/
def isMagnitude : List Char → Bool
  | [] => false
  | '0' :: rest => isFraction rest
  | d :: rest => isAsciiDigit d && isFraction (rest.dropWhile isAsciiDigit)

def isNumber : List Char → Bool
  | '-' :: rest => isMagnitude rest
  | cs => isMagnitude cs

theorem numeral?_eq_none {base : Nat} {cs : List Char} {c : Char} (member : c ∈ cs)
    (other : hexValue? c = none) : numeral? base cs = none := by
  obtain ⟨before, after, rfl⟩ := List.append_of_mem member
  rw [numeral?, if_neg (by simp), List.foldl_append, List.foldl_cons]
  have stop (read : Option Nat) : (do
      let n ← read
      let d ← hexValue? c
      if d < base then some (n * base + d) else none) = none := by
    cases read <;> simp [other]
  rw [stop]
  induction after with
  | nil => rfl
  | cons d after ih => exact ih (by simp)

namespace Word

def single (c : Char) (h : isSign c = true) : Word where
  chars := [c]
  nonempty := List.cons_ne_nil c []
  signs _ hd := List.mem_singleton.mp hd ▸ h

/-- A word with one more character behind it. -/
def snoc (w : Word) (c : Char) (h : isSign c = true) : Word where
  chars := w.chars ++ [c]
  nonempty := by simp
  signs d hd := (List.mem_append.mp hd).elim (w.signs d) fun last => List.mem_singleton.mp last ▸ h

/-- Whether a word can stand in a document. -/
def isValid (w : Word) : Bool :=
  [null, ofBool true, ofBool false].any (·.chars == w.chars) || isNumber w.chars

end Word

/-! ## Tokens -/

inductive Token
  | openArr
  | closeArr
  | openObj
  | closeObj
  | comma
  | colon
  | word (w : Word)
  | str (s : String)

def Token.str? : Token → Option String
  | str s => some s
  | _ => none

/-- The strings among tokens. -/
def strings (ts : List Token) : List String := ts.filterMap Token.str?

@[simp] theorem strings_append (ts us : List Token) :
    strings (ts ++ us) = strings ts ++ strings us :=
  List.filterMap_append

/-- The tokens of one character. -/
def mark? : Char → Option Token
  | '[' => some .openArr
  | ']' => some .closeArr
  | '\x7b' => some .openObj
  | '\x7d' => some .closeObj
  | ',' => some .comma
  | ':' => some .colon
  | _ => none

def isGap (c : Char) : Bool := c == ' ' || c == '\t' || c == '\n' || c == '\r'

/-- Where a scanner is: between tokens, in a word, or in a string of which it holds the characters
that are read. -/
inductive Scanner
  | between
  | word (w : Word)
  | inside (r : Reader) (held : List Char)

namespace Scanner

/-- What a character starts that is in no word and no string. -/
def start (c : Char) : Option (Scanner × List Token) :=
  if c = '\x22' then some (inside .text [], [])
  else if isGap c then some (between, [])
  else if h : isSign c = true then some (word (.single c h), [])
  else (mark? c).map fun t => (between, [t])

def step (c : Char) : Scanner → Option (Scanner × List Token)
  | between => start c
  | word w =>
    if h : isSign c = true then some (word (w.snoc c h), [])
    else if w.isValid then (start c).map fun next => (next.1, .word w :: next.2)
    else none
  | inside r held =>
    match r.step c with
    | .refuse => none
    | .close => some (between, [.str (String.ofList held)])
    | .go next => some (inside next held, [])
    | .emit d => some (inside .text (held ++ [d]), [])

/-- Where a scanner gets to and the tokens that end on its way. -/
def scan : Scanner → List Char → Option (Scanner × List Token)
  | s, [] => some (s, [])
  | s, c :: rest =>
    (s.step c).bind fun next => (scan next.1 rest).map fun found => (found.1, next.2 ++ found.2)

/-- The token that the end of a text ends, unless the text breaks off in a string. -/
def finish? : Scanner → Option (List Token)
  | between => some []
  | word w => if w.isValid then some [.word w] else none
  | inside _ _ => none

/-- The characters of the string that is being read. -/
def held : Scanner → List Char
  | inside _ held => held
  | _ => []

end Scanner

/-- The tokens of a text. -/
def tokens? (cs : List Char) : Option (List Token) :=
  (Scanner.between.scan cs).bind fun found => found.1.finish?.map fun last => found.2 ++ last

namespace Scanner

variable {s u : Scanner} {c : Char} {xs ys cs : List Char} {ts : List Token}

theorem scan_append (s : Scanner) (xs ys : List Char) : s.scan (xs ++ ys) =
    (s.scan xs).bind fun first => (first.1.scan ys).map fun second =>
      (second.1, first.2 ++ second.2) := by
  induction xs generalizing s with
  | nil => simp [scan]
  | cons c xs ih =>
      rw [List.cons_append, scan, scan]
      cases s.step c with
      | none => rfl
      | some next => simp [ih, Option.map_bind, Option.bind_map, Function.comp_def]

theorem scan_append_of_eq_some {v : Scanner} {us : List Token} (first : s.scan xs = some (u, ts))
    (second : u.scan ys = some (v, us)) : s.scan (xs ++ ys) = some (v, ts ++ us) := by
  rw [scan_append, first, Option.bind_some, second]
  rfl

theorem exists_scan_of_append (h : s.scan (xs ++ ys) = some (u, ts)) : ∃ middle before after,
    s.scan xs = some (middle, before) ∧ middle.scan ys = some (u, after) ∧
      ts = before ++ after := by
  rw [scan_append] at h
  obtain ⟨⟨middle, before⟩, first, h⟩ := Option.bind_eq_some_iff.mp h
  obtain ⟨⟨last, after⟩, second, h⟩ := Option.map_eq_some_iff.mp h
  obtain ⟨rfl, rfl⟩ := Prod.mk.inj h
  exact ⟨middle, before, after, first, second, rfl⟩

theorem exists_step_of_scan (h : s.scan (c :: cs) = some (u, ts)) : ∃ next here after,
    s.step c = some (next, here) ∧ next.scan cs = some (u, after) ∧ ts = here ++ after := by
  obtain ⟨⟨next, here⟩, stepped, h⟩ := Option.bind_eq_some_iff.mp h
  obtain ⟨⟨last, after⟩, scanned, h⟩ := Option.map_eq_some_iff.mp h
  obtain ⟨rfl, rfl⟩ := Prod.mk.inj h
  exact ⟨next, here, after, stepped, scanned, rfl⟩

/-- A scanner in a string goes on as the reader of strings does. -/
theorem scan_of_read? {r : Reader} {read found rest : List Char}
    (h : r.read? cs = some (found, rest)) :
    (inside r read).scan cs = (between.scan rest).map fun more =>
      (more.1, .str (String.ofList (read ++ found)) :: more.2) := by
  induction cs generalizing r read found with
  | nil => cases h
  | cons c cs ih =>
      rw [Reader.read?] at h
      cases stepped : r.step c with
      | refuse =>
          rw [stepped] at h
          cases h
      | close =>
          rw [stepped] at h
          cases h
          simp [scan, step, stepped]
      | go next =>
          rw [stepped] at h
          simp [scan, step, stepped, ih h, Function.comp_def]
      | emit d =>
          rw [stepped] at h
          obtain ⟨⟨more, rest⟩, others, same⟩ := Option.map_eq_some_iff.mp h
          cases same
          simp [scan, step, stepped, ih others, Function.comp_def]

/-! ## What is read is not longer than what is there -/

/-- Whether the strings that are read, the last one as far as it is read, keep to a length. -/
def Within (n : Nat) (s : Scanner) (ts : List Token) : Prop :=
  s.held.length ≤ n ∧ ∀ t ∈ strings ts, t.length ≤ n

theorem within_of_start (h : start c = some (u, ts)) : Within 0 u ts := by
  unfold start at h
  split_ifs at h
  · cases h
    exact ⟨Nat.le_refl 0, nofun⟩
  · cases h
    exact ⟨Nat.le_refl 0, nofun⟩
  · cases h
    exact ⟨Nat.le_refl 0, nofun⟩
  · obtain ⟨t, mark, h⟩ := Option.map_eq_some_iff.mp h
    cases h
    have silent : t.str? = none := by
      unfold mark? at mark
      split at mark <;> cases mark <;> rfl
    exact ⟨Nat.le_refl 0, by simp [strings, silent]⟩

/-- A character makes what is read longer by at most one. -/
theorem within_of_step (h : s.step c = some (u, ts)) :
    u.held.length ≤ s.held.length + 1 ∧ ∀ t ∈ strings ts, t.length ≤ s.held.length := by
  cases s with
  | between =>
      obtain ⟨short, all⟩ := within_of_start h
      exact ⟨by omega, all⟩
  | word w =>
      simp only [step] at h
      split_ifs at h
      · cases h
        exact ⟨Nat.zero_le _, nofun⟩
      · obtain ⟨next, started, h⟩ := Option.map_eq_some_iff.mp h
        cases h
        obtain ⟨short, all⟩ := within_of_start started
        exact ⟨by omega, all⟩
  | inside r held =>
      simp only [step] at h
      split at h
      · cases h
      · cases h
        exact ⟨Nat.zero_le _, by simp [strings, Token.str?, Scanner.held]⟩
      · cases h
        exact ⟨Nat.le_succ _, nofun⟩
      · cases h
        exact ⟨by simp [Scanner.held], nofun⟩

theorem within_of_scan {n : Nat} (h : s.scan cs = some (u, ts))
    (long : s.held.length + cs.length ≤ n) : Within n u ts := by
  induction cs generalizing s ts with
  | nil =>
      cases h
      exact ⟨long, nofun⟩
  | cons c cs ih =>
      obtain ⟨next, here, after, stepped, scanned, rfl⟩ := exists_step_of_scan h
      rw [List.length_cons] at long
      obtain ⟨short, all⟩ := within_of_step stepped
      obtain ⟨ended, others⟩ := ih scanned (by omega)
      refine ⟨ended, fun t ht => ?_⟩
      rw [strings_append, List.mem_append] at ht
      rcases ht with ht | ht
      · exact Nat.le_trans (all t ht) (by omega)
      · exact others t ht

end Scanner

/-! ## Texts that are copied into a string -/

/-- Whether every character of a text stands for itself in a string. -/
def IsVerbatim (cs : List Char) : Prop := ∀ c ∈ cs, c ≠ '\x22' ∧ c ≠ '\x5c' ∧ 0x20 ≤ c.toNat

instance (cs : List Char) : Decidable (IsVerbatim cs) :=
  List.decidableBAll (fun c => c ≠ '\x22' ∧ c ≠ '\x5c' ∧ 0x20 ≤ c.toNat) cs

/-- What can be read where a text is copied into a string: the text, if each of its characters
stands for itself, and otherwise something shorter. -/
inductive IsReadFrom (cs : List Char) : String → Prop
  | whole (verbatim : IsVerbatim cs) : IsReadFrom cs (String.ofList cs)
  | part {t : String} (other : ¬ IsVerbatim cs) (short : t.length < cs.length) : IsReadFrom cs t

theorem isVerbatim_append {xs ys : List Char} :
    IsVerbatim (xs ++ ys) ↔ IsVerbatim xs ∧ IsVerbatim ys :=
  List.forall_mem_append

namespace Scanner

variable {s u : Scanner} {cs read : List Char} {ts : List Token}

theorem scan_of_isVerbatim (verbatim : IsVerbatim cs) (read : List Char) :
    (inside .text read).scan cs = some (inside .text (read ++ cs), []) := by
  induction cs generalizing read with
  | nil => simp [scan]
  | cons c cs ih =>
      obtain ⟨⟨quote, slash, printable⟩, others⟩ := List.forall_mem_cons.mp verbatim
      have stepped : (inside .text read).step c = some (inside .text (read ++ [c]), []) := by
        rw [step, Reader.step_plain quote slash printable]
      rw [scan, stepped, Option.bind_some, ih others, Option.map_some, List.append_assoc]
      rfl

/-- A character that does not stand for itself is missing in what is read. -/
theorem within_of_not_isVerbatim {n : Nat} (other : ¬ IsVerbatim cs)
    (h : (inside .text read).scan cs = some (u, ts)) (long : read.length + cs.length ≤ n + 1) :
    Within n u ts := by
  induction cs generalizing read ts with
  | nil => exact absurd (List.forall_mem_nil _) other
  | cons c cs ih =>
      obtain ⟨next, here, after, stepped, scanned, rfl⟩ := exists_step_of_scan h
      rw [List.length_cons] at long
      simp only [step, Reader.step] at stepped
      split_ifs at stepped with quote slash control
      · cases stepped
        obtain ⟨short, all⟩ := within_of_scan (n := n) scanned (by simp [Scanner.held]; omega)
        refine ⟨short, List.forall_mem_cons.mpr ⟨?_, all⟩⟩
        rw [String.length_ofList]
        omega
      · cases stepped
        exact within_of_scan scanned (by simp only [Scanner.held]; omega)
      · cases stepped
        have others : ¬ IsVerbatim cs := fun verbatim =>
          other (List.forall_mem_cons.mpr ⟨⟨quote, slash, by omega⟩, verbatim⟩)
        refine ih others scanned ?_
        rw [List.length_append, List.length_singleton]
        omega

/-- No scanner gets out of a numeric escape in which a quote stands. -/
theorem scan_digits_eq_none {high? : Option Nat} {digits : List Char} (quote : '\x22' ∈ digits)
    (short : digits.length ≤ 3) (long : 4 ≤ digits.length + cs.length) :
    (inside (.digits high? digits) read).scan cs = none := by
  induction cs generalizing digits with
  | nil => exact absurd long (by simp only [List.length_nil]; omega)
  | cons c cs ih =>
      have kept : '\x22' ∈ digits ++ [c] := List.mem_append_left _ quote
      rw [scan, step, Reader.step]
      by_cases more : digits.length < 3
      · rw [if_pos more]
        have rest := ih kept (by simp; omega) (by simp at long ⊢; omega)
        simp [rest]
      · rw [if_neg more, numeral?_eq_none kept (by decide)]
        rfl

/-- Whether a text that is copied into a string leaves a scanner in a string, and in no escape. -/
def StaysInside (cs : List Char) : Prop :=
  ∃ read here, (inside .text []).scan cs = some (inside .text read, here)

/-- A piece of a text that ends the string before it. No scanner gets through it but one that takes
characters for themselves. -/
structure Closes (piece : List Char) (next : Scanner) (after : List Token) : Prop where
  scan (read : List Char) :
    (inside .text read).scan piece = some (next, .str (String.ofList read) :: after)
  only {s : Scanner} (h : (s.scan piece).isSome = true) : ∃ read, s = inside .text read

/-- Behind a quote that does not end a string the rest of the piece would stand in one. -/
theorem closes_of_stuck {rest : List Char} {next : Scanner} {after : List Token}
    (scans : ∀ read, (inside .text read).scan ('\x22' :: rest) =
      some (next, .str (String.ofList read) :: after))
    (stuck : ∀ read, (inside .text read).scan rest = none) (long : 3 ≤ rest.length) :
    Closes ('\x22' :: rest) next after := by
  refine ⟨scans, fun {s} h => ?_⟩
  obtain ⟨⟨u, ts⟩, h⟩ := Option.isSome_iff_exists.mp h
  obtain ⟨first, here, more, stepped, scanned, rfl⟩ := exists_step_of_scan h
  have opens {here : List Token} (started : start '\x22' = some (first, here)) : False := by
    obtain ⟨rfl, -⟩ := Prod.mk.inj (Option.some.inj started)
    rw [stuck] at scanned
    cases scanned
  cases s with
  | between => exact (opens stepped).elim
  | word w =>
      rw [step, dif_neg (by decide)] at stepped
      split_ifs at stepped
      obtain ⟨found, started, same⟩ := Option.map_eq_some_iff.mp stepped
      cases same
      exact (opens started).elim
  | inside r read =>
      cases r with
      | text => exact ⟨read, rfl⟩
      | escape =>
          obtain ⟨rfl, -⟩ := Prod.mk.inj (Option.some.inj stepped)
          rw [stuck] at scanned
          cases scanned
      | digits high? digits =>
          have quote : '\x22' ∈ digits ++ ['\x22'] := by simp
          simp only [step, Reader.step, numeral?_eq_none quote rfl] at stepped
          split_ifs at stepped with short
          · obtain ⟨rfl, -⟩ := Prod.mk.inj (Option.some.inj stepped)
            rw [scan_digits_eq_none quote (by simp; omega) (by simp; omega)] at scanned
            cases scanned
          · cases stepped
      | half high => cases stepped
      | halfEscape high => cases stepped

section Closes

variable {piece : List Char} {next : Scanner} {after : List Token}
  (closes : Closes piece next after)
include closes

theorem Closes.scan_of_isVerbatim (verbatim : IsVerbatim cs) :
    (inside .text []).scan (cs ++ piece) = some (next, .str (String.ofList cs) :: after) := by
  have here := Scanner.scan_of_isVerbatim verbatim []
  exact scan_append_of_eq_some here (closes.scan cs)

/-- A text that is copied in front of a piece leaves the scanner in a string, and what is read in
it up to the end of that string is the text or shorter. -/
theorem Closes.cases_of_scan (h : (inside .text []).scan (cs ++ piece) = some (u, ts)) :
    u = next ∧ StaysInside cs ∧ ∀ t ∈ strings ts, t ∈ strings after ∨ IsReadFrom cs t := by
  obtain ⟨middle, here, rest, first, second, rfl⟩ := exists_scan_of_append h
  obtain ⟨read, rfl⟩ := closes.only (Option.isSome_of_eq_some second)
  rw [closes.scan] at second
  obtain ⟨rfl, rfl⟩ := Prod.mk.inj (Option.some.inj second)
  refine ⟨rfl, ⟨read, here, first⟩, fun t ht => ?_⟩
  have parts : t ∈ strings here ∨ t = String.ofList read ∨ t ∈ strings after := by
    simpa [strings, Token.str?] using ht
  by_cases verbatim : IsVerbatim cs
  · rw [Scanner.scan_of_isVerbatim verbatim] at first
    obtain ⟨same, rfl⟩ := Prod.mk.inj (Option.some.inj first)
    obtain rfl : cs = read := by simpa using same
    rcases parts with ht | rfl | ht
    · cases ht
    · exact .inr (.whole verbatim)
    · exact .inl ht
  · have some_ : cs ≠ [] := by
      rintro rfl
      exact verbatim (List.forall_mem_nil _)
    have long : 0 < cs.length := List.length_pos_iff.mpr some_
    obtain ⟨last, all⟩ := within_of_not_isVerbatim (n := cs.length - 1) verbatim first
      (by simp only [List.length_nil]; omega)
    have short : ∀ n, n ≤ cs.length - 1 → n < cs.length := fun n h => by omega
    rcases parts with ht | rfl | ht
    · exact .inr (.part verbatim (short _ (all t ht)))
    · exact .inr (.part verbatim (short _ (String.length_ofList.trans_le last)))
    · exact .inl ht

end Closes

end Scanner

/-- Among several texts of which each stands for itself or is shorter than one that does not, all
stand for themselves. -/
theorem isVerbatim_of_shorter {texts : List String}
    (each : ∀ t ∈ texts, IsVerbatim t.toList ∨
      ∃ longer ∈ texts, ¬ IsVerbatim longer.toList ∧ t.length < longer.length) :
    ∀ t ∈ texts, IsVerbatim t.toList := by
  by_contra other
  push Not at other
  obtain ⟨first, here, bad⟩ := other
  have unbounded (n : Nat) : ∃ t ∈ texts, ¬ IsVerbatim t.toList ∧ n ≤ t.length := by
    induction n with
    | zero => exact ⟨first, here, bad, Nat.zero_le _⟩
    | succ n ih =>
        obtain ⟨t, ht, bad, long⟩ := ih
        obtain ⟨longer, hl, worse, more⟩ := (each t ht).resolve_left bad
        exact ⟨longer, hl, worse, by omega⟩
  obtain ⟨t, ht, -, long⟩ := unbounded ((texts.map String.length).sum + 1)
  have short : t.length ≤ (texts.map String.length).sum :=
    List.single_le_sum (fun _ _ => Nat.zero_le _) _ (List.mem_map_of_mem ht)
  omega

end ClientForge.Json
