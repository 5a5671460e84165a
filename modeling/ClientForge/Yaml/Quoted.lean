import ClientForge.Text.CodePoint
import ClientForge.Text.Hex
import ClientForge.Yaml.Input

/-!
# Quoted scalars

A quoted scalar runs to its closing quote, over lines if need be. Blanks around the end
of a line are dropped; a single end becomes a space, further ends stand for themselves.
Between single quotes a quote is written twice. Between double quotes a backslash
starts an escape, and one before the end of a line takes that end away.
-/

namespace ClientForge.Yaml

open ClientForge.Text

/-- What lies between the text of a quoted scalar that was read and the next. -/
inductive Gap
  | none
  /-- Blanks that count unless a line ends after them. -/
  | blanks (held : List Char)
  /-- Ends of lines: the first, unless it was taken away, and the further ones, and
  whether the next character starts a line. -/
  | lines (first : Option Char) (more : List Char) (fresh : Bool)
  deriving DecidableEq, Repr

/-- What ends of lines stand for. -/
def folded (first : Option Char) (more : List Char) : List Char :=
  match first with
  | none => more
  | some c => if c != '\n' then c :: more else if more.isEmpty then [' '] else more

/-- The character that a short escape stands for. -/
def shortEscape? : Char → Option Char
  | '0' => some '\x00'
  | 'a' => some '\x07'
  | 'b' => some '\x08'
  | 't' => some '\t'
  | '\t' => some '\t'
  | 'n' => some '\n'
  | 'v' => some '\x0b'
  | 'f' => some '\x0c'
  | 'r' => some '\r'
  | 'e' => some '\x1b'
  | ' ' => some ' '
  | '\x22' => some '\x22'
  | '\x5c' => some '\x5c'
  | '/' => some '/'
  | 'N' => some '\u0085'
  | '_' => some '\u00a0'
  | 'L' => some '\u2028'
  | 'P' => some '\u2029'
  | _ => none

/-- The number of digits that an escape by code has. -/
def codeWidth? : Char → Option Nat
  | 'x' => some 2
  | 'u' => some 4
  | 'U' => some 8
  | _ => none

/-- What carries a code point, which may be half of a surrogate pair. -/
def charsOfCode (n : Nat) : Except Fault (List Char) :=
  if n < noCode then .ok (ofCode n)
  else if n < 0x80000000 then .error (.misuse .badValue)
  else .error (.misuse .tooLarge)

/-- What carries the code point of a code of some digits. -/
def codeEscape (width : Nat) (cs : Input) : Except Fault (List Char) :=
  let digits := Input.chars (cs.take width)
  match if digits.length = width then numeral? 16 digits else none with
  | some n => charsOfCode n
  | none => .error .malformed

/-- Characters before the text of a scalar. -/
def prependAll (cs : List Char) (r : Except Fault (List Char × Input)) :
    Except Fault (List Char × Input) :=
  r.map fun r => (cs ++ r.1, r.2)

/-- The text of a scalar up to its closing quote, and what follows it. -/
def quotedBody (double : Bool) : Gap → Input → Except Fault (List Char × Input)
  | _, [] => .error .malformed
  | .blanks held, s :: rest =>
    if isBlank s.char then quotedBody double (.blanks (held ++ [s.char])) rest
    else if isBreak s.char then quotedBody double (.lines (some s.char) [] true) rest
    else prependAll held (quotedBody double .none (s :: rest))
  | .lines first more fresh, s :: rest =>
    if fresh && Input.isSeparator (s :: rest) then .error .malformed
    else if isBlank s.char then quotedBody double (.lines first more false) rest
    else if isBreak s.char then quotedBody double (.lines first (more ++ [s.char]) true) rest
    else prependAll (folded first more) (quotedBody double .none (s :: rest))
  | .none, s :: rest =>
    if s.char == endMark then .error .malformed
    else if isBlank s.char then quotedBody double (.blanks [s.char]) rest
    else if isBreak s.char then quotedBody double (.lines (some s.char) [] true) rest
    else if !double && s.char == '\x27' then
      match rest with
      | t :: more =>
        if t.char == '\x27' then prependAll ['\x27'] (quotedBody double .none more)
        else .ok ([], t :: more)
      | [] => .ok ([], [])
    else if double && s.char == '\x22' then .ok ([], rest)
    else if double && s.char == '\x5c' then
      match rest with
      | [] => .error .malformed
      | e :: more =>
        if isBreak e.char then quotedBody double (.lines none [] true) more
        else
          match shortEscape? e.char, codeWidth? e.char with
          | some c, _ => prependAll [c] (quotedBody double .none more)
          | none, some width => do
            let carried ← codeEscape width more
            prependAll carried (quotedBody double .none (more.drop width))
          | none, none => .error .malformed
    else prependAll [s.char] (quotedBody double .none rest)
termination_by gap cs => 2 * cs.length + (if gap = .none then 0 else 1)
decreasing_by all_goals simp; try omega

/-- The quoted scalar that comes next. -/
def quotedScalar (cs : Input) : Except Fault (List Char × Input) :=
  quotedBody (cs.peek == '\x22') .none (cs.drop 1)

end ClientForge.Yaml
