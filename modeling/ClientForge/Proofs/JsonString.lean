import ClientForge.Text.Hex

/-!
# Reading a JSON string

A string of a JSON text stands between double quotes. Inside, a backslash opens an
escape: a letter for one of eight characters, or `u` and the four digits of a code unit,
where two units may make up one character. A quote ends the string, control characters
are not allowed, and every other character stands for itself. The reader takes one
character after another and remembers how far it is in an escape.
-/

namespace ClientForge.Json

/-- The character that a letter behind a backslash stands for. -/
def ofEscape? (letter : Char) : Option Char :=
  (([('\x22', '\x22'), ('\x5c', '\x5c'), ('/', '/'), ('b', '\x08'), ('f', '\x0c'), ('n', '\n'),
    ('r', '\r'), ('t', '\t')] : List (Char × Char)).find? (·.1 == letter)).map (·.2)

def isHighSurrogate (n : Nat) : Bool := 0xD800 ≤ n && n < 0xDC00

def isLowSurrogate (n : Nat) : Bool := 0xDC00 ≤ n && n < 0xE000

/-- The character of two surrogates. -/
def ofSurrogates (high low : Nat) : Char :=
  Char.ofNat (0x10000 + (high - 0xD800) * 0x400 + (low - 0xDC00))

/-- Where a reader stands in a string. -/
inductive Reader
  | text
  /-- Behind a backslash. -/
  | escape
  /-- In the digits of a code unit, which may follow a high surrogate. -/
  | digits (high? : Option Nat) (read : List Char)
  /-- Behind a high surrogate, where a second escape must follow. -/
  | half (high : Nat)
  /-- Behind the backslash of that escape. -/
  | halfEscape (high : Nat)

/-- What a reader does with one character. -/
inductive Reader.Step
  | refuse
  | close
  | go (next : Reader)
  | emit (c : Char)

namespace Reader

/-- What a code unit amounts to, alone or behind a high surrogate. A surrogate without its
other half is refused, since no text holds it. -/
def ofUnit (high? : Option Nat) (n : Nat) : Step :=
  match high? with
  | some high => if isLowSurrogate n then .emit (ofSurrogates high n) else .refuse
  | none =>
    if isLowSurrogate n then .refuse
    else if isHighSurrogate n then .go (.half n)
    else .emit (Char.ofNat n)

def step (c : Char) : Reader → Step
  | text =>
    if c = '\x22' then .close
    else if c = '\x5c' then .go escape
    else if c.toNat < 0x20 then .refuse
    else .emit c
  | escape => if c = 'u' then .go (digits none []) else ((ofEscape? c).map .emit).getD .refuse
  | digits high? read =>
    if read.length < 3 then .go (digits high? (read ++ [c]))
    else ((Text.numeral? 16 (read ++ [c])).map (ofUnit high?)).getD .refuse
  | half high => if c = '\x5c' then .go (halfEscape high) else .refuse
  | halfEscape high => if c = 'u' then .go (digits (some high) []) else .refuse

/-- The characters of a string up to its closing quote, and what follows the quote. -/
def read? : Reader → List Char → Option (List Char × List Char)
  | _, [] => none
  | r, c :: rest =>
    match r.step c with
    | .refuse => none
    | .close => some ([], rest)
    | .go next => next.read? rest
    | .emit d => (text.read? rest).map fun found => (d :: found.1, found.2)

theorem read?_close (rest : List Char) : text.read? ('\x22' :: rest) = some ([], rest) := rfl

/-- A character that is neither quote, backslash nor control character stands for itself. -/
theorem step_plain {c : Char} (quote : c ≠ '\x22') (slash : c ≠ '\x5c')
    (printable : 0x20 ≤ c.toNat) : text.step c = .emit c := by
  rw [step, if_neg quote, if_neg slash, if_neg (by omega)]

theorem read?_plain {c : Char} (quote : c ≠ '\x22') (slash : c ≠ '\x5c')
    (printable : 0x20 ≤ c.toNat) (rest : List Char) :
    text.read? (c :: rest) = (text.read? rest).map fun found => (c :: found.1, found.2) := by
  rw [read?, step_plain quote slash printable]

/-- A backslash and a letter stand for one character. -/
theorem read?_short {letter c : Char} (listed : ofEscape? letter = some c) (rest : List Char) :
    text.read? ('\x5c' :: letter :: rest) =
      (text.read? rest).map fun found => (c :: found.1, found.2) := by
  have unicode : letter ≠ 'u' := by
    rintro rfl
    have none : ofEscape? 'u' = none := by decide
    rw [none] at listed
    cases listed
  have emits : escape.step letter = .emit c := by
    rw [step, if_neg unicode, listed]
    rfl
  change escape.read? (letter :: rest) = _
  rw [read?, emits]

end Reader

/-- The string at the head of a text, and what follows it. -/
def readString? : List Char → Option (String × List Char)
  | '\x22' :: rest => (Reader.text.read? rest).map fun found => (String.ofList found.1, found.2)
  | _ => none

/-- Two code units make up one character. -/
example : readString? "\"\\ud83d\\ude00\\n\\u0041\" tail".toList =
    some (String.ofList [Char.ofNat 0x1F600, '\n', 'A'], " tail".toList) := by
  decide

end ClientForge.Json
