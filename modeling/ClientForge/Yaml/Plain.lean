import ClientForge.Yaml.Input

/-!
# Plain scalars

A plain scalar is written without quotes. It ends before a comment, before a colon that
a gap follows, in a flow collection also before the marks of such collections, and where
a line is indented too little. Spaces inside it count; a single end of a line becomes a
space, further ends stand for themselves.
-/

namespace ClientForge.Yaml

/-- The marks of flow collections that a plain scalar inside one may not hold. -/
def isFlowMark (c : Char) : Bool :=
  c == ',' || c == '?' || c == '[' || c == ']' || c == '\x7b' || c == '\x7d'

/-- The characters that a colon may stand before as a mark. -/
def closesKey (inFlow : Bool) (c : Char) : Bool :=
  isWideGap c || (inFlow && (c == ',' || c == '[' || c == ']' || c == '\x7b' || c == '\x7d'))

/-- The longest run of characters without gaps and marks. -/
def plainRun (inFlow : Bool) : Input → List Char × Input
  | [] => ([], [])
  | s :: rest =>
    if isWideGap s.char || (s.char == ':' && closesKey inFlow (Input.peek rest)) ||
        (inFlow && isFlowMark s.char) then ([], s :: rest)
    else
      let r := plainRun inFlow rest
      (s.char :: r.1, r.2)

/-- The ends of lines after the first one, with the spaces between them skipped; nothing
if a mark between documents comes next. -/
def furtherBreaks (fresh : Bool) : Input → Option (List Char) × Input
  | [] => (some [], [])
  | s :: rest =>
    if fresh && Input.isSeparator (s :: rest) then (none, s :: rest)
    else if s.char == ' ' then furtherBreaks false rest
    else if isBreak s.char then
      let r := furtherBreaks true rest
      (r.1.map (s.char :: ·), r.2)
    else (some [], s :: rest)

/-- A stretch of an input: its text, what follows it, and whether a line ended last. -/
structure Stretch where
  text : List Char
  rest : Input
  endsLine : Bool

/-- What stands between two runs of a plain scalar. -/
def plainGap (cs : Input) : Stretch :=
  let (spaces, rest) := cs.span (· == ' ')
  let (first, rest) := rest.takeBreak
  if first.isEmpty then ⟨spaces, rest, false⟩
  else
    match furtherBreaks true rest with
    | (none, rest) => ⟨[], rest, true⟩
    | (some more, rest) =>
      ⟨(if first != ['\n'] then first else if more.isEmpty then [' '] else []) ++ more, rest, true⟩

/-- The runs of a plain scalar with what stands between them. -/
def plainRuns (inFlow : Bool) (indent : Nat) : Nat → Input → Stretch
  | 0, cs => ⟨[], cs, false⟩
  | fuel + 1, cs =>
    let (run, rest) := if cs.peek == '#' then ([], cs) else plainRun inFlow cs
    if run.isEmpty then ⟨[], cs, false⟩
    else
      let gap := plainGap rest
      if gap.text.isEmpty || gap.rest.peek == '#' || (!inFlow && gap.rest.column < indent) then
        ⟨run, gap.rest, gap.endsLine⟩
      else
        let more := plainRuns inFlow indent fuel gap.rest
        if more.text.isEmpty then ⟨run, gap.rest, gap.endsLine⟩
        else { more with text := run ++ gap.text ++ more.text }

/-- The plain scalar that comes next. -/
def plainScalar (inFlow : Bool) (indent : Nat) (cs : Input) : Stretch :=
  plainRuns inFlow indent cs.length cs

/-- Whether a plain scalar may start with the next character. -/
def startsPlain (inFlow : Bool) (cs : Input) : Bool :=
  let c := cs.peek
  let isMark := isWideGap c || "-?:,[]\x7b\x7d#&*!|>\x27\x22%@\x60".toList.contains c
  !isMark || (!isWideGap cs.second && (c == '-' || (!inFlow && (c == '?' || c == ':'))))

end ClientForge.Yaml
