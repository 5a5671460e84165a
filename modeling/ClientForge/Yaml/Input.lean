import ClientForge.Failure
import ClientForge.Text.Blank

/-!
# Texts of documents

The text of a document as characters that know their places. Line ends are made alike
when a text is taken in: a carriage return, alone or before a line feed, and the next
line character count as a line feed, while the line and paragraph separators stay as
they are. A null character, which no text may hold, closes every input, so that there
is always a next character to look at.
-/

namespace ClientForge.Yaml

open ClientForge.Text

/-- Why a document cannot be read: its text is not well formed, or a scalar does not
have the form that its type asks for. -/
inductive Fault
  | malformed
  | misuse (cause : Misuse)
  deriving DecidableEq, Repr, Inhabited

/-- A character and its place. -/
structure Spot where
  char : Char
  line : Nat
  column : Nat
  index : Nat
  deriving DecidableEq, Repr, Inhabited

/-- What is left of a text. -/
abbrev Input := List Spot

/-- The character after the end of a text. -/
def endMark : Char := '\x00'

/-- The mark of the order of bytes, which takes no column. -/
def orderMark : Char := '\ufeff'

/-- The characters that a text may hold. -/
def isAllowed (c : Char) : Bool :=
  let n := c.toNat
  n == 9 || n == 10 || n == 13 || (32 ≤ n && n ≤ 126) || n == 0x85 || (0xA0 ≤ n && n ≤ 0xD7FF) ||
    (0xE000 ≤ n && n ≤ 0xFFFD) || 0x10000 ≤ n

/-- The characters that end a line of an input. -/
def isBreak (c : Char) : Bool := c == '\n' || c == '\u2028' || c == '\u2029'

/-- Spaces and tabs. -/
def isBlank (c : Char) : Bool := c == ' ' || c == '\t'

/-- The end of a line or of the text. -/
def isLineEnd (c : Char) : Bool := c == endMark || isBreak c

/-- A space or the end of a line. -/
def isGap (c : Char) : Bool := c == ' ' || isLineEnd c

/-- A blank or the end of a line. -/
def isWideGap (c : Char) : Bool := c == '\t' || isGap c

/-- The characters of names of anchors, tags and directives. -/
def isNameChar (c : Char) : Bool := isWordChar c || c == '-' || c == '_'

/-- Make the ends of lines alike. -/
def evenLineEnds : List Char → List Char
  | '\r' :: '\n' :: rest => '\n' :: evenLineEnds rest
  | c :: rest => (if c == '\r' || c == '\u0085' then '\n' else c) :: evenLineEnds rest
  | [] => []

/-- The characters of a text with their places, from a place on. -/
def places (line column index : Nat) : List Char → Input
  | [] => [⟨endMark, line, column, index⟩]
  | c :: rest =>
    ⟨c, line, column, index⟩ ::
      (if isBreak c then places (line + 1) 0 (index + 1) rest
       else places line (if c == orderMark then column else column + 1) (index + 1) rest)

namespace Input

/-- The input of a text. A leading mark of the order of bytes is skipped. -/
def ofText (s : String) : Except Fault Input :=
  let cs := s.toList
  if cs.all isAllowed then
    .ok ((places 0 0 0 (evenLineEnds cs)).dropWhile fun p => p.index == 0 && p.char == orderMark)
  else .error .malformed

/-- The next character. -/
def peek : Input → Char
  | s :: _ => s.char
  | [] => endMark

/-- The character after the next one. -/
def second (cs : Input) : Char := peek (cs.drop 1)

/-- The column of the next character. -/
def column : Input → Nat
  | s :: _ => s.column
  | [] => 0

/-- The line of the next character. -/
def line : Input → Nat
  | s :: _ => s.line
  | [] => 0

/-- The number of the next character. -/
def index : Input → Nat
  | s :: _ => s.index
  | [] => 0

def chars (cs : Input) : List Char := cs.map (·.char)

/-- The longest run of characters of a class, and what follows it. -/
def span (p : Char → Bool) (cs : Input) : List Char × Input :=
  (chars (cs.takeWhile fun s => p s.char), cs.dropWhile fun s => p s.char)

def skip (p : Char → Bool) (cs : Input) : Input := cs.dropWhile fun s => p s.char

def skipSpaces (cs : Input) : Input := cs.skip (· == ' ')

/-- Skip a comment if there is one. -/
def skipComment (cs : Input) : Input := if cs.peek == '#' then cs.skip (!isLineEnd ·) else cs

/-- The end of a line as text, if it comes next, and what follows it. -/
def takeBreak (cs : Input) : List Char × Input :=
  if isBreak cs.peek then ([cs.peek], cs.drop 1) else ([], cs)

/-- Skip to the next line; nothing but a comment may stand before it. -/
def restOfLine (cs : Input) : Except Fault Input :=
  let cs := cs.skipSpaces.skipComment
  if isLineEnd cs.peek then .ok cs.takeBreak.2 else .error .malformed

/-- Whether three of a character come next, and then a gap. -/
def isTriple (mark : Char) : Input → Bool
  | a :: b :: c :: rest =>
    a.char == mark && b.char == mark && c.char == mark && isWideGap (peek rest)
  | _ => false

/-- Whether a mark between documents comes next. -/
def isSeparator (cs : Input) : Bool := cs.isTriple '-' || cs.isTriple '.'

end Input

end ClientForge.Yaml
