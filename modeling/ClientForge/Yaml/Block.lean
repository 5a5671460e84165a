import ClientForge.Yaml.Input

/-!
# Block scalars

A block scalar is indented text. A literal one keeps the ends of its lines; a folded
one joins neighbouring lines that start with text by a space. The indentation is that
of the first line with text, or is given by a digit. A sign says whether the ends of
lines at the end of the scalar are all kept or all dropped; without one the first of
them is kept.
-/

namespace ClientForge.Yaml

/-- What becomes of the ends of lines at the end of a block scalar. -/
inductive Chomping
  | clip
  | keep
  | strip
  deriving DecidableEq, Repr, Inhabited

/-- The head of a block scalar: what a sign and a digit in it say. -/
structure BlockHead where
  chomping : Chomping
  increment : Option Nat

def chompingOf? : Char → Option Chomping
  | '+' => some .keep
  | '-' => some .strip
  | _ => none

/-- A digit for the indentation, which may not be zero. -/
def incrementOf (cs : Input) : Except Fault (Option Nat × Input) :=
  let c := cs.peek
  if c == '0' then .error .malformed
  else if '1' ≤ c && c ≤ '9' then .ok (some (c.toNat - 48), cs.drop 1)
  else .ok (none, cs)

/-- The head that comes next, up to the end of its line. -/
def blockHead (cs : Input) : Except Fault (BlockHead × Input) := do
  let (head, cs) ← match chompingOf? cs.peek with
    | some chomping => do
      let (increment, cs) ← incrementOf (cs.drop 1)
      pure (⟨chomping, increment⟩, cs)
    | none => do
      let (increment, cs) ← incrementOf cs
      match increment, chompingOf? cs.peek with
      | some n, some chomping => pure (⟨chomping, some n⟩, cs.drop 1)
      | _, _ => pure (⟨.clip, increment⟩, cs)
  if isGap cs.peek then
    let cs ← cs.restOfLine
    pure (head, cs)
  else throw .malformed

/-- Ends of lines before the first text, the greatest column that a space before it
reaches, and what follows. -/
def leadingBreaks (deepest : Nat) : Input → List Char × Nat × Input
  | [] => ([], deepest, [])
  | s :: rest =>
    if s.char == ' ' then leadingBreaks (max deepest (s.column + 1)) rest
    else if isBreak s.char then
      let r := leadingBreaks deepest rest
      (s.char :: r.1, r.2)
    else ([], deepest, s :: rest)

/-- Ends of empty lines, with at most the indentation skipped on each line. -/
def blockBreaks (indent : Nat) : Input → List Char × Input
  | [] => ([], [])
  | s :: rest =>
    if s.char == ' ' && s.column < indent then blockBreaks indent rest
    else if isBreak s.char then
      let r := blockBreaks indent rest
      (s.char :: r.1, r.2)
    else ([], s :: rest)

/-- The lines of a block scalar: their text without the end of the last line, that end,
the ends of empty lines after it, and what follows. -/
structure BlockText where
  text : List Char
  lastEnd : List Char
  trailing : List Char
  rest : Input

/-- Whether a line with the given indentation comes next. -/
def isIndentedLine (indent : Nat) (cs : Input) : Bool := cs.column == indent && cs.peek != endMark

/-- What stands between two lines of text. -/
def between (fold : Bool) (this next : Input) (lineEnd empty : List Char) : List Char :=
  if fold && lineEnd == ['\n'] && !isBlank this.peek && !isBlank next.peek then
    if empty.isEmpty then [' '] else []
  else lineEnd

/-- The lines from one on, after the ends of some empty ones. -/
def blockLines (fold : Bool) (indent : Nat) : Nat → List Char → Input → BlockText
  | 0, empty, cs => ⟨[], [], empty, cs⟩
  | fuel + 1, empty, cs =>
    if isIndentedLine indent cs then
      let (line, rest) := cs.span (!isLineEnd ·)
      let (lineEnd, rest) := rest.takeBreak
      let (after, rest) := blockBreaks indent rest
      if isIndentedLine indent rest then
        let more := blockLines fold indent fuel after rest
        { more with text := empty ++ line ++ between fold cs rest lineEnd after ++ more.text }
      else ⟨empty ++ line, lineEnd, after, rest⟩
    else ⟨[], [], empty, cs⟩

/-- The text of a scalar with the ends of lines at its end as its head says. -/
def BlockText.chomped (t : BlockText) : Chomping → List Char
  | .strip => t.text
  | .clip => t.text ++ t.lastEnd
  | .keep => t.text ++ t.lastEnd ++ t.trailing

/-- The block scalar that comes next, inside a collection at a column if there is one. -/
def blockScalar (outer : Option Nat) (cs : Input) : Except Fault (List Char × Input) := do
  let fold := cs.peek == '>'
  let (head, cs) ← blockHead (cs.drop 1)
  let least := (outer.map (· + 1)).getD 0 |> max 1
  let t := match head.increment with
    | some n =>
      let indent := least + n - 1
      let (empty, rest) := blockBreaks indent cs
      blockLines fold indent (rest.length + 1) empty rest
    | none =>
      let (empty, deepest, rest) := leadingBreaks 0 cs
      blockLines fold (max least deepest) (rest.length + 1) empty rest
  pure (t.chomped head.chomping, t.rest)

end ClientForge.Yaml
