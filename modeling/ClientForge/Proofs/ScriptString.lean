import ClientForge.Text.Hex
import ClientForge.Text.Literal

/-!
# Reading a script's string literal

The grammar of ECMAScript for a string in single quotes, in the strict code of a module. A
backslash opens an escape: a letter for a control character, a hexadecimal or Unicode
numeral, a line that is continued, or a character that then stands for itself. Outside an
escape a line feed or a carriage return is not allowed (the other two line terminators are),
and the value is the sequence of the code units of the characters. The reader takes one
character after another and remembers how far it is in an escape.

A literal written by doubling backslashes and escaping quotes is read as the text that was
written exactly if that text is on one line; otherwise no literal is read at all.
-/

namespace ClientForge.Text.Script

/-- The code units of a code point: itself, or two surrogates. -/
def codeUnits (n : Nat) : List Nat :=
  if n < 0x10000 then [n] else [0xD800 + (n - 0x10000) / 0x400, 0xDC00 + (n - 0x10000) % 0x400]

/-- The value of a text as a string of a script. -/
def unitsOf (cs : List Char) : List Nat := cs.flatMap fun c => codeUnits c.toNat

/-- The control character of a letter behind a backslash. -/
def control? (letter : Char) : Option Nat :=
  (([('b', 0x08), ('t', 0x09), ('n', 0x0a), ('v', 0x0b), ('f', 0x0c), ('r', 0x0d)] :
    List (Char × Nat)).find? (·.1 == letter)).map (·.2)

/-- Where a reader stands in a string. -/
inductive Reader
  | text
  /-- Behind a backslash. -/
  | escape
  /-- Behind a continued line's carriage return, which a line feed may belong to. -/
  | continued
  /-- Behind an escaped zero, which no digit may follow. -/
  | zero
  /-- In a numeral with so many more digits after the next one, of which some are read. -/
  | digits (more read : Nat)
  /-- Behind the letter of a Unicode escape. -/
  | unicode
  /-- In the braces of a code point, of whose digits some are read. -/
  | point (read? : Option Nat)
  deriving DecidableEq

/-- What a reader does with one character. -/
inductive Reader.Step
  | refuse
  | close
  /-- Some code units are read, and the reader goes on. -/
  | go (next : Reader) (units : List Nat)

namespace Reader

def inText (c : Char) : Step :=
  if c = '\x27' then .close
  else if c = '\x5c' then .go escape []
  else if c = '\n' ∨ c = '\r' then .refuse
  else .go text (codeUnits c.toNat)

def inEscape (c : Char) : Step :=
  if let some n := control? c then .go text [n]
  else if c = 'x' then .go (digits 1 0) []
  else if c = 'u' then .go unicode []
  else if c = '0' then .go zero [0]
  else if c.isDigit then .refuse
  else if c = '\r' then .go continued []
  else if c = '\n' ∨ c = '\u2028' ∨ c = '\u2029' then .go text []
  else .go text (codeUnits c.toNat)

/-- The next digit of a numeral of fixed width. -/
def inDigits (c : Char) (more read : Nat) : Step :=
  match hexValue? c, more with
  | some d, 0 => .go text [16 * read + d]
  | some d, more + 1 => .go (digits more (16 * read + d)) []
  | none, _ => .refuse

/-- The next digit of a code point, or the end of its braces. -/
def inPoint (c : Char) (read? : Option Nat) : Step :=
  match hexValue? c, read? with
  | some d, read? =>
    let n := 16 * read?.getD 0 + d
    if n ≤ 0x10FFFF then .go (point (some n)) [] else .refuse
  | none, some n => if c = '\x7d' then .go text (codeUnits n) else .refuse
  | none, none => .refuse

def step (c : Char) : Reader → Step
  | text => inText c
  | escape => inEscape c
  | continued => if c = '\n' then .go text [] else inText c
  | zero => if c.isDigit then .refuse else inText c
  | digits more read => inDigits c more read
  | unicode => if c = '\x7b' then .go (point none) [] else inDigits c 3 0
  | point read? => inPoint c read?

/-- The code units of a string up to its closing quote, and what follows the quote. -/
def read? : Reader → List Char → Option (List Nat × List Char)
  | _, [] => none
  | r, c :: rest =>
    match r.step c with
    | .refuse => none
    | .close => some ([], rest)
    | .go next units => (next.read? rest).map fun found => (units ++ found.1, found.2)

variable {c : Char} {cs : List Char}

/-- A line feed or carriage return in the text ends the reading without a string. -/
theorem read?_break (ends : c = '\n' ∨ c = '\r') (rest : List Char) :
    text.read? (c :: rest) = none := by
  obtain rfl | rfl := ends
  · rfl
  · rfl

/-- Any other character but a quote or backslash stands for itself. -/
theorem read?_plain (plain : ¬(c = '\x27' ∨ c = '\x5c')) (inLine : ¬(c = '\n' ∨ c = '\r'))
    (rest : List Char) :
    text.read? (c :: rest) =
      (text.read? rest).map fun found => (codeUnits c.toNat ++ found.1, found.2) := by
  obtain ⟨quote, slash⟩ := not_or.mp plain
  have goes : text.step c = .go text (codeUnits c.toNat) := by
    rw [step, inText, if_neg quote, if_neg slash, if_neg inLine]
  rw [read?, goes]

/-- A quote or backslash behind a backslash stands for itself. -/
theorem read?_escaped (special : c = '\x27' ∨ c = '\x5c') (rest : List Char) :
    text.read? ('\x5c' :: c :: rest) =
      (text.read? rest).map fun found => (codeUnits c.toNat ++ found.1, found.2) := by
  have read_ : text.read? ('\x5c' :: c :: rest) = (escape.read? (c :: rest)).map fun found =>
      ([] ++ found.1, found.2) := rfl
  have goes : escape.read? (c :: rest) =
      (text.read? rest).map fun found => (codeUnits c.toNat ++ found.1, found.2) := by
    obtain rfl | rfl := special
    · rfl
    · rfl
  rw [read_, goes, Option.map_map]
  rfl

/-- What is read of an escaped text: the text, unless the line ends inside it. -/
theorem read?_escape (cs rest : List Char) :
    text.read? (Literal.escape cs ++ '\x27' :: rest) =
      if '\n' ∉ cs ∧ '\r' ∉ cs then some (unitsOf cs, rest) else none := by
  induction cs with
  | nil => rfl
  | cons c cs ih =>
      -- Escaping leaves line breaks alone, and nothing behind one can mend the string.
      by_cases ends : c = '\n' ∨ c = '\r'
      · have plain : ¬(c = '\x27' ∨ c = '\x5c') := by
          obtain rfl | rfl := ends
          · decide
          · decide
        have broken : ¬('\n' ∉ c :: cs ∧ '\r' ∉ c :: cs) := by
          rintro ⟨feed, carriage⟩
          obtain rfl | rfl := ends
          · exact feed List.mem_cons_self
          · exact carriage List.mem_cons_self
        rw [Literal.escape, if_neg plain, List.cons_append, read?_break ends, if_neg broken]
      · have read_ : text.read? (Literal.escape (c :: cs) ++ '\x27' :: rest) =
            (text.read? (Literal.escape cs ++ '\x27' :: rest)).map fun found =>
              (codeUnits c.toNat ++ found.1, found.2) := by
          by_cases special : c = '\x27' ∨ c = '\x5c'
          · rw [Literal.escape, if_pos special, List.cons_append, List.cons_append,
              read?_escaped special]
          · rw [Literal.escape, if_neg special, List.cons_append, read?_plain special ends]
        obtain ⟨feed, carriage⟩ := not_or.mp ends
        have inLine : ('\n' ∉ c :: cs ∧ '\r' ∉ c :: cs) ↔ ('\n' ∉ cs ∧ '\r' ∉ cs) := by
          simp [Ne.symm feed, Ne.symm carriage]
        rw [read_, ih]
        simp only [inLine]
        split
        · rfl
        · rfl

end Reader

/-- The string literal at the head of a source, and the source after it. -/
def readLiteral? : List Char → Option (List Nat × List Char)
  | '\x27' :: rest => Reader.text.read? rest
  | _ => none

/-- A numeral of two digits, two surrogates and a code point in braces, a continued line. -/
example : readLiteral? "'\\x41\\ud83d\\ude00\\u\x7b1F600\x7d\\\n\\0' tail".toList =
    some ([0x41, 0xD83D, 0xDE00, 0xD83D, 0xDE00, 0], " tail".toList) := by
  decide

/-- Whether a text holds neither a line feed nor a carriage return. -/
def IsOneLine (s : String) : Prop := '\n' ∉ s.toList ∧ '\r' ∉ s.toList

instance : DecidablePred IsOneLine := fun s =>
  inferInstanceAs (Decidable ('\n' ∉ s.toList ∧ '\r' ∉ s.toList))

/-- A source text is a string literal with a text as its value, whatever comes after it. -/
def Denotes (literal s : String) : Prop :=
  ∀ rest, readLiteral? (literal.toList ++ rest) = some (unitsOf s.toList, rest)

theorem readLiteral?_quote (s : String) (rest : List Char) :
    readLiteral? ((Literal.quote s).toList ++ rest) =
      if IsOneLine s then some (unitsOf s.toList, rest) else none := by
  have opened : (Literal.quote s).toList ++ rest =
      '\x27' :: (Literal.escape s.toList ++ '\x27' :: rest) := by
    rw [Literal.quote, String.toList_ofList, Literal.write, List.cons_append, List.append_assoc,
      List.singleton_append]
  rw [opened]
  exact Reader.read?_escape s.toList rest

/-- The literal of a text denotes it exactly if the text is on one line. -/
theorem denotes_quote_iff {s : String} : Denotes (Literal.quote s) s ↔ IsOneLine s := by
  constructor
  · intro denotes
    have read_ := denotes []
    rw [readLiteral?_quote] at read_
    split at read_
    next inLine => exact inLine
    next => cases read_
  · intro inLine rest
    rw [readLiteral?_quote, if_pos inLine]

end ClientForge.Text.Script
