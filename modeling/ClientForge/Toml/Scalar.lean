import ClientForge.Calendar
import ClientForge.Number.Reading
import ClientForge.Text.CodePoint
import ClientForge.Value.Basic

/-!
# Scalars of settings files

Strings in their four forms, dates, times and numbers, each read from the head of a
text and given with what follows it. A basic string has escapes, a literal one has
none; the long forms run over lines, and in a basic one a backslash at the end of a
line takes the line end and the blanks after it away. Control characters other than
the tab are nowhere allowed as they are.
-/

namespace ClientForge.Toml

open ClientForge.Text

/-- Why a settings file cannot be read. -/
inductive Fault
  /-- The text breaks the rules of the form. -/
  | malformed
  /-- A decimal integer has more digits than a numeral may have. -/
  | tooManyDigits
  deriving DecidableEq, Repr, Inhabited

/-- What is there must be there. -/
def found {α : Type} : Option α → Except Fault α
  | some x => .ok x
  | none => .error .malformed

/-- Characters that no line of a settings file may hold. -/
def isControl (c : Char) : Bool := (c.toNat < 32 && c != '\t') || c.toNat == 127

def isSpace (c : Char) : Bool := c == ' ' || c == '\t'

def isSpaceOrLineEnd (c : Char) : Bool := isSpace c || c == '\n'

/-- The character that a short escape stands for. -/
def shortEscape? : Char → Option Char
  | 'b' => some '\x08'
  | 't' => some '\t'
  | 'n' => some '\n'
  | 'f' => some '\x0c'
  | 'r' => some '\r'
  | '\x22' => some '\x22'
  | '\x5c' => some '\x5c'
  | _ => none

/-- What carries the character of a code written in hexadecimal digits. -/
def codeChars? (digits : List Char) : Option (List Char) := do
  let n ← numeral? 16 digits
  if n.isValidChar then some (ofCode n) else none

/-- Where a basic string stands: in its text, after a backslash before the end of the
line, or between such a line end and the next text. -/
inductive Gap
  | none
  | beforeLineEnd
  | afterLineEnd
  deriving DecidableEq, Repr

/-- Characters before the text of a string. -/
def prependAll (cs : List Char) (r : List Char × List Char) : List Char × List Char :=
  (cs ++ r.1, r.2)

/-- A character before the text of a string. -/
def prepend (c : Char) : List Char × List Char → List Char × List Char := prependAll [c]

/-- The text of a basic string up to its closing quotes, and what follows them. -/
def basicBody (long : Bool) : Gap → List Char → Option (List Char × List Char)
  | _, [] => .none
  | .beforeLineEnd, c :: rest =>
    if isSpace c then basicBody long .beforeLineEnd rest
    else if c == '\n' then basicBody long .afterLineEnd rest
    else .none
  | .none, '\x5c' :: 'u' :: a :: b :: c :: d :: rest => do
    let code ← codeChars? [a, b, c, d]
    (basicBody long .none rest).map (prependAll code)
  | .none, '\x5c' :: 'U' :: a :: b :: c :: d :: e :: f :: g :: h :: rest => do
    let code ← codeChars? [a, b, c, d, e, f, g, h]
    (basicBody long .none rest).map (prependAll code)
  | .none, '\x5c' :: e :: rest =>
    if long && isSpace e then basicBody long .beforeLineEnd rest
    else if long && e == '\n' then basicBody long .afterLineEnd rest
    else
      match shortEscape? e with
      | some c => (basicBody long .none rest).map (prepend c)
      | .none => .none
  | .none, '\x22' :: '\x22' :: '\x22' :: rest =>
    some ([], if long then rest else '\x22' :: '\x22' :: rest)
  | .none, c :: rest =>
    if c == '\x22' then
      if long then (basicBody long .none rest).map (prepend c) else some ([], rest)
    else if c == '\x5c' then .none
    else if isControl c && !(long && c == '\n') then .none
    else (basicBody long .none rest).map (prepend c)
  | .afterLineEnd, c :: rest =>
    if isSpaceOrLineEnd c then basicBody long .afterLineEnd rest
    else basicBody long .none (c :: rest)
termination_by gap cs => 2 * cs.length + (if gap = .afterLineEnd then 1 else 0)
decreasing_by all_goals simp; try omega

/-- The text of a literal string up to its closing quote. -/
def literalBody : List Char → Option (List Char × List Char)
  | [] => none
  | c :: rest =>
    if c == '\x27' then some ([], rest)
    else if isControl c then none
    else (literalBody rest).map (prepend c)

/-- The text of a long literal string up to its three closing quotes. -/
def longLiteralBody : List Char → Option (List Char × List Char)
  | [] => none
  | '\x27' :: '\x27' :: '\x27' :: rest => some ([], rest)
  | c :: rest =>
    if isControl c && c != '\n' then none else (longLiteralBody rest).map (prepend c)

/-- Up to two more quotes right after the end of a long string belong to its text. -/
def extraQuotes (quote : Char) (r : List Char × List Char) : List Char × List Char :=
  match r.2 with
  | a :: b :: rest =>
    if a == quote && b == quote then (r.1 ++ [quote, quote], rest)
    else if a == quote then (r.1 ++ [quote], b :: rest)
    else r
  | [a] => if a == quote then (r.1 ++ [quote], []) else r
  | [] => r

/-- A line end right after the opening quotes of a long string is dropped. -/
def dropLineEnd : List Char → List Char
  | '\n' :: rest => rest
  | cs => cs

/-- The string at the head of a text. -/
def string? : List Char → Option (List Char × List Char)
  | '\x22' :: '\x22' :: '\x22' :: rest =>
    (basicBody true .none (dropLineEnd rest)).map (extraQuotes '\x22')
  | '\x22' :: rest => basicBody false .none rest
  | '\x27' :: '\x27' :: '\x27' :: rest =>
    (longLiteralBody (dropLineEnd rest)).map (extraQuotes '\x27')
  | '\x27' :: rest => literalBody rest
  | _ => none

/-- The string of one line at the head of a text. -/
def shortString? : List Char → Option (List Char × List Char)
  | '\x22' :: rest => basicBody false .none rest
  | '\x27' :: rest => literalBody rest
  | _ => none

/-- Exactly two digits that stand for a number up to a bound. -/
def twoDigits? (low high : Nat) : List Char → Option (Nat × List Char)
  | a :: b :: rest =>
    if isAsciiDigit a && isAsciiDigit b then
      let n := Number.decimalValue [a, b]
      if low ≤ n && n ≤ high then some (n, rest) else none
    else none
  | _ => none

/-- One given character. -/
def expect (c : Char) : List Char → Option (List Char)
  | d :: rest => if d == c then some rest else none
  | [] => none

/-- A fraction of a second in microseconds; further digits are dropped. -/
def fraction : List Char → Nat × List Char
  | '.' :: rest =>
    let digits := rest.takeWhile isAsciiDigit
    if digits.isEmpty then (0, '.' :: rest)
    else
      let six := digits.take 6
      (Number.decimalValue (six ++ List.replicate (6 - six.length) '0'), rest.drop digits.length)
  | cs => (0, cs)

/-- The time of day at the head of a text. -/
def time? (cs : List Char) : Option (Time × List Char) := do
  let (hour, cs) ← twoDigits? 0 23 cs
  let (minute, cs) ← twoDigits? 0 59 (← expect ':' cs)
  let (second, cs) ← twoDigits? 0 59 (← expect ':' cs)
  let (micro, cs) := fraction cs
  pure (⟨hour, minute, second, micro⟩, cs)

/-- The offset at the head of a text in microseconds, if there is one. -/
def offset (cs : List Char) : Option Int × List Char :=
  match cs with
  | 'Z' :: rest => (some 0, rest)
  | 'z' :: rest => (some 0, rest)
  | sign :: rest =>
    if sign == '+' || sign == '-' then
      match (do
        let (hour, rest) ← twoDigits? 0 23 rest
        let (minute, rest) ← twoDigits? 0 59 (← expect ':' rest)
        pure ((hour * 3600 + minute * 60) * microsPerSecond, rest) : Option (Nat × List Char)) with
      | some (n, rest) => (some (if sign == '-' then -(n : Int) else n), rest)
      | none => (none, cs)
    else (none, cs)
  | [] => (none, [])

/-- The digits of a day at the head of a text. -/
def date? (cs : List Char) : Option (Date × List Char) := do
  let year := cs.take 4
  if year.length < 4 || !year.all isAsciiDigit then none
  let (month, cs) ← twoDigits? 1 12 (← expect '-' (cs.drop 4))
  let (day, cs) ← twoDigits? 1 31 (← expect '-' cs)
  pure (⟨Number.decimalValue year, month, day⟩, cs)

/-- The value of a day at the head of a text, with the time that may follow it; the
inner nothing is a day that does not exist. -/
def day? (cs : List Char) : Option (Option Value × List Char) := do
  let (d, rest) ← date? cs
  let withTime : Option (DateTime × List Char) :=
    match rest with
    | mark :: more =>
      if mark == 'T' || mark == 't' || mark == ' ' then do
        let (t, more) ← time? more
        let (o, more) := offset more
        pure (⟨d, t, o⟩, more)
      else none
    | [] => none
  match withTime with
  | some (t, more) => pure (if d.isValid then some (.dateTime t) else none, more)
  | none => pure (if d.isValid then some (.date d) else none, rest)

/-- The longest run of digits with single underscores between them. -/
def digitRun (isDigit : Char → Bool) : List Char → List Char × List Char
  | [] => ([], [])
  | [c] => if isDigit c then ([c], []) else ([], [c])
  | c :: '_' :: d :: rest =>
    if isDigit c then
      if isDigit d then
        let r := digitRun isDigit (d :: rest)
        (c :: '_' :: r.1, r.2)
      else ([c], '_' :: d :: rest)
    else ([], c :: '_' :: d :: rest)
  | c :: d :: rest =>
    if isDigit c then
      let r := digitRun isDigit (d :: rest)
      (c :: r.1, r.2)
    else ([], c :: d :: rest)

/-- An integer to another base than ten. -/
def based? : List Char → Option (Value × List Char)
  | '0' :: mark :: rest => do
    let base ← if mark == 'x' then some 16 else if mark == 'b' then some 2
      else if mark == 'o' then some 8 else none
    let (digits, more) := digitRun (fun c => (hexValue? c).any (· < base)) rest
    let n ← numeral? base (digits.filter (· != '_'))
    pure (.int n, more)
  | _ => none

/-- A fraction or an exponent: its mark, an optional sign, digits. -/
def numberPart (isMark : Char → Bool) (signed : Bool) (cs : List Char) : List Char × List Char :=
  match cs with
  | mark :: rest =>
    if isMark mark then
      let (sign, more) := match rest with
        | s :: more => if signed && (s == '+' || s == '-') then ([s], more) else ([], rest)
        | [] => ([], rest)
      let (digits, more) := digitRun isAsciiDigit more
      if digits.isEmpty then ([], cs) else (mark :: (sign ++ digits), more)
    else ([], cs)
  | [] => ([], [])

/-- A decimal number: an integer, or with a fraction or an exponent a floating-point
number. The inner nothing is an integer with too many digits. -/
def decimal? (cs : List Char) : Option (Option Value × List Char) := do
  let (sign, body) := match cs with
    | '+' :: rest => (['+'], rest)
    | '-' :: rest => (['-'], rest)
    | _ => ([], cs)
  let (whole, rest) := match body with
    | '0' :: rest => (['0'], rest)
    | _ => digitRun isAsciiDigit body
  if whole.isEmpty then none
  let (fraction, rest) := numberPart (· == '.') false rest
  let (exponent, rest) := numberPart (fun c => c == 'e' || c == 'E') true rest
  if fraction.isEmpty && exponent.isEmpty then
    some ((Number.integer? 10 (sign ++ whole)).map Value.int, rest)
  else
    (Number.floating? (sign ++ whole ++ fraction ++ exponent)).map fun x => (some (.float x), rest)

/-- One of the special floating-point numbers. -/
def special? (cs : List Char) : Option (Value × List Char) :=
  let (negative, body) := Number.takeSign cs
  if ['i', 'n', 'f'].isPrefixOf body then some (.float (.infinite negative), body.drop 3)
  else if ['n', 'a', 'n'].isPrefixOf body then some (.float .nan, body.drop 3)
  else none

/-- The word `true` or `false`. -/
def truth? (cs : List Char) : Option (Value × List Char) :=
  if ['t', 'r', 'u', 'e'].isPrefixOf cs then some (.bool true, cs.drop 4)
  else if ['f', 'a', 'l', 's', 'e'].isPrefixOf cs then some (.bool false, cs.drop 5)
  else none

/-- The number at the head of a text. -/
def number (cs : List Char) : Except Fault (Value × List Char) :=
  match based? cs with
  | some r => .ok r
  | none =>
    match decimal? cs with
    | some (some v, rest) => .ok (v, rest)
    | some (none, _) => .error .tooManyDigits
    | none => found (special? cs)

/-- The scalar at the head of a text. -/
def scalar (cs : List Char) : Except Fault (Value × List Char) :=
  match cs with
  | [] => .error .malformed
  | c :: _ =>
    if c == '\x22' || c == '\x27' then
      found ((string? cs).map fun r => (.str (String.ofList r.1), r.2))
    else
      match truth? cs with
      | some r => .ok r
      | none =>
        match day? cs with
        | some (v, rest) => found (v.map (·, rest))
        | none =>
          match time? cs with
          | some (t, rest) => .ok (.time t, rest)
          | none => number cs

end ClientForge.Toml
