import ClientForge.Yaml.Block
import ClientForge.Yaml.Plain
import ClientForge.Yaml.Quoted
import ClientForge.Yaml.Tag

/-!
# Tokens

A document as tokens: marks of collections, names, scalars. The indentation of the
lines opens and closes block collections, so that tokens need no places. A scalar, a
flow collection, an anchor, an alias or a tag may turn out to be a key once a colon
follows on the same line and not too far away; then a key mark is put before it, and if
it opens a mapping the mark of that too. What cannot be cut into tokens ends the list
with its fault. As long as a token may turn out to be a key it is not given away, so that
a fault hides it and all tokens after it.
-/

namespace ClientForge.Yaml

/-- A piece of a document. -/
inductive Token
  | directive (d : Directive)
  | documentStart
  | documentEnd
  | blockSequence
  | blockMapping
  | blockEnd
  | flowSequence
  | flowSequenceEnd
  | flowMapping
  | flowMappingEnd
  | item
  | comma
  | key
  | value
  | alias (name : String)
  | anchor (name : String)
  | tag (name : TagName)
  | scalar (text : String) (plain : Bool)
  | streamEnd
  | fault (f : Fault)
  deriving DecidableEq, Repr, Inhabited

/-- A token that may turn out to be a key, and where it starts. -/
structure KeyCandidate where
  /-- The number of the token. -/
  number : Nat
  /-- Whether nothing but a key may stand there. -/
  required : Bool
  line : Nat
  column : Nat
  index : Nat
  deriving Repr, Inhabited

/-- How far a colon may be from the start of its key. -/
def maxKeyDistance : Nat := 1024

/-- A document that is being cut into tokens. -/
structure Cutter where
  input : Input
  /-- The tokens so far, the last one first. -/
  tokens : List Token
  /-- How many tokens there are. -/
  count : Nat
  /-- The columns of the open block collections, the innermost first. -/
  columns : List Nat
  /-- The candidate of the innermost open flow collection, or of the block around all. -/
  candidate : Option KeyCandidate
  /-- The candidates of the collections around that, the next one first. -/
  outer : List (Option KeyCandidate)
  /-- Whether a key may start here. -/
  allowsKey : Bool

namespace Cutter

def ofInput (input : Input) : Cutter := ⟨input, [], 0, [], none, [], true⟩

def inFlow (c : Cutter) : Bool := !c.outer.isEmpty

def add (t : Token) (c : Cutter) : Cutter :=
  { c with tokens := t :: c.tokens, count := c.count + 1 }

/-- Put a token before the one of a number. -/
def insert (number : Nat) (t : Token) (c : Cutter) : Cutter :=
  let after := c.tokens.take (c.count - number)
  { c with tokens := after ++ t :: c.tokens.drop (c.count - number), count := c.count + 1 }

/-- Go on with an input after a token. -/
def addFrom (t : Token) (rest : Input) (c : Cutter) : Cutter := { c.add t with input := rest }

/-- The candidate at this place. -/
def candidateHere (c : Cutter) : KeyCandidate :=
  ⟨c.count, !c.inFlow && c.columns.head? == some c.input.column, c.input.line, c.input.column,
    c.input.index⟩

/-- Give up the candidate. -/
def dropCandidate (c : Cutter) : Except Fault Cutter :=
  if c.candidate.any (·.required) then .error .malformed else .ok { c with candidate := none }

/-- Take the next token for a candidate if a key may start here. -/
def noteCandidate (c : Cutter) : Except Fault Cutter :=
  if c.allowsKey then do
    let c' ← c.dropCandidate
    pure { c' with candidate := some c.candidateHere }
  else .ok c

/-- Whether a candidate can no longer become a key. -/
def isStale (input : Input) (k : KeyCandidate) : Bool :=
  k.line != input.line || maxKeyDistance < input.index - k.index

/-- Give up the candidates that can no longer become keys. -/
def dropStale (c : Cutter) : Except Fault Cutter :=
  let isStale := isStale c.input
  if (c.candidate :: c.outer).any fun k => k.any fun k => k.required && isStale k then
    .error .malformed
  else
    .ok { c with
      candidate := c.candidate.filter (!isStale ·)
      outer := c.outer.map (·.filter (!isStale ·)) }

/-- Close the block collections that are indented more than a column. -/
def closeTo (column : Option Nat) (c : Cutter) : Cutter :=
  if c.inFlow then c
  else
    let isDeeper := fun (n : Nat) => column.all (· < n)
    let closed := c.columns.takeWhile isDeeper
    { c with
      tokens := List.replicate closed.length .blockEnd ++ c.tokens
      count := c.count + closed.length
      columns := c.columns.dropWhile isDeeper }

/-- Whether a block collection at a column would be a new one. -/
def isDeeper (column : Nat) (c : Cutter) : Bool := c.columns.head?.all (· < column)

/-- Open a block collection here if it is a new one. -/
def openHere (t : Token) (c : Cutter) : Cutter :=
  if c.isDeeper c.input.column then
    { c.add t with columns := c.input.column :: c.columns }
  else c

/-- Skip spaces, comments and ends of lines. After the end of a line a key may start. -/
def skipGaps (c : Cutter) : Nat → Cutter
  | 0 => c
  | fuel + 1 =>
    let rest := c.input.skipSpaces.skipComment
    if isBreak rest.peek then
      skipGaps { c with input := rest.drop 1, allowsKey := c.allowsKey || !c.inFlow } fuel
    else { c with input := rest }

/-- Close everything before the start of a line that is no part of a node. -/
def closeAll (c : Cutter) : Except Fault Cutter := do
  let c ← (c.closeTo none).dropCandidate
  pure { c with allowsKey := false }

/-- A mark of one character. -/
def mark (t : Token) (allowsKey : Bool) (c : Cutter) : Cutter :=
  { c.addFrom t (c.input.drop 1) with allowsKey }

def openFlow (t : Token) (c : Cutter) : Except Fault Cutter := do
  let c ← c.noteCandidate
  pure { c.mark t true with candidate := none, outer := c.candidate :: c.outer }

/-- Close a flow collection; there has to be one. -/
def closeFlow (t : Token) (c : Cutter) : Except Fault Cutter := do
  let c ← c.dropCandidate
  match c.outer with
  | [] => throw .malformed
  | candidate :: outer => pure { c.mark t false with candidate, outer }

/-- An item of a block sequence, or the mark of a key or a value that stands alone. -/
def openMark (collection t : Token) (allowsKey : Bool) (c : Cutter) : Except Fault Cutter := do
  if !c.inFlow && !c.allowsKey then throw .malformed
  let c ← (if c.inFlow then c else c.openHere collection).dropCandidate
  pure (c.mark t allowsKey)

/-- The colon before a value. -/
def valueMark (c : Cutter) : Except Fault Cutter :=
  match c.candidate with
  | some k =>
    let c := c.insert k.number .key
    let c :=
      if !c.inFlow && c.isDeeper k.column then
        { c.insert k.number .blockMapping with columns := k.column :: c.columns }
      else c
    .ok { c.mark .value false with candidate := none }
  | none => c.openMark .blockMapping .value (!c.inFlow)

/-- A token that may be a key and after which none may start. -/
def named {α : Type} (scan : Input → Except Fault (α × Input)) (t : α → Token) (c : Cutter) :
    Except Fault Cutter := do
  let c ← c.noteCandidate
  let (x, rest) ← scan c.input
  pure { c.addFrom (t x) rest with allowsKey := false }

/-- A block scalar, after which a key may start. -/
def block (c : Cutter) : Except Fault Cutter := do
  let c ← c.dropCandidate
  let (text, rest) ← blockScalar c.columns.head? c.input
  pure { c.addFrom (.scalar (String.ofList text) false) rest with allowsKey := true }

/-- A plain scalar, after which a key may start if a line ended. -/
def plain (c : Cutter) : Except Fault Cutter := do
  let c ← c.noteCandidate
  let s := plainScalar c.inFlow ((c.columns.head?.map (· + 1)).getD 0) c.input
  pure { c.addFrom (.scalar (String.ofList s.text) true) s.rest with allowsKey := s.endsLine }

/-- The token that starts with the next character. -/
def token (c : Cutter) : Except Fault Cutter :=
  let cs := c.input
  let next := cs.peek
  let atStart := cs.column == 0
  let beforeGap := isWideGap cs.second
  if next == endMark then do
    let c ← c.closeAll
    pure (c.add .streamEnd)
  else if next == '%' && atStart then do
    let c ← c.closeAll
    let (d, rest) ← directive cs
    pure (c.addFrom (.directive d) rest)
  else if atStart && cs.isTriple '-' then do
    let c ← c.closeAll
    pure (c.addFrom .documentStart (cs.drop 3))
  else if atStart && cs.isTriple '.' then do
    let c ← c.closeAll
    pure (c.addFrom .documentEnd (cs.drop 3))
  else if next == '[' then c.openFlow .flowSequence
  else if next == '\x7b' then c.openFlow .flowMapping
  else if next == ']' then c.closeFlow .flowSequenceEnd
  else if next == '\x7d' then c.closeFlow .flowMappingEnd
  else if next == ',' then do
    let c ← c.dropCandidate
    pure (c.mark .comma true)
  else if next == '-' && beforeGap then c.openMark .blockSequence .item true
  else if next == '?' && (c.inFlow || beforeGap) then c.openMark .blockMapping .key (!c.inFlow)
  else if next == ':' && (c.inFlow || beforeGap) then c.valueMark
  else if next == '*' then c.named anchorName .alias
  else if next == '&' then c.named anchorName .anchor
  else if next == '!' then c.named tagName .tag
  else if (next == '|' || next == '>') && !c.inFlow then c.block
  else if next == '\x27' || next == '\x22' then
    c.named quotedScalar fun text => .scalar (String.ofList text) false
  else if startsPlain c.inFlow cs then c.plain
  else .error .malformed

/-- The next token, with the ends of block collections before it. -/
def step (c : Cutter) : Except Fault Cutter := do
  let c ← (c.skipGaps c.input.length).dropStale
  (c.closeTo (some c.input.column)).token

/-- Whether the last token is the end of the stream. -/
def isDone (c : Cutter) : Bool := c.tokens.head? == some .streamEnd

/-- How many tokens are known for what they are: those before the first candidate. -/
def settled (c : Cutter) : Nat :=
  (((c.candidate :: c.outer).filterMap id).filter (!isStale c.input ·)).foldl
    (fun n k => min n k.number) c.count

/-- The tokens that are known for what they are. -/
def settledTokens (c : Cutter) : List Token := (c.tokens.drop (c.count - c.settled)).reverse

/-- Cut until the end of the stream or a fault. -/
def run : Nat → Cutter → List Token
  | 0, c => c.tokens.reverse
  | fuel + 1, c =>
    match c.step with
    | .error f => c.settledTokens ++ [.fault f]
    | .ok c => if c.isDone then c.tokens.reverse else run fuel c

end Cutter

/-- The tokens of a document. -/
def tokens (input : Input) : List Token := (Cutter.ofInput input).run (input.length + 1)

end ClientForge.Yaml
