import ClientForge.Text.Hex
import ClientForge.Yaml.Input

/-!
# Anchors, tags and directives

An anchor names a node and an alias refers to it. A tag names the type of a node: in
full between angle brackets, or by a handle that a directive stands for and an ending.
Characters of a tag may be written by the bytes of their encoding.
-/

namespace ClientForge.Yaml

open ClientForge.Text

/-- A tag as written: the handle, if it has one, and the rest. -/
structure TagName where
  handle : Option String
  ending : String
  deriving DecidableEq, Repr, Inhabited

/-- A directive at the head of a document. -/
inductive Directive
  | version (isKnown : Bool)
  | tag (handle start : String)
  | other
  deriving DecidableEq, Repr, Inhabited

/-- A name after the mark of an anchor or an alias. -/
def anchorName (cs : Input) : Except Fault (String × Input) :=
  let (name, rest) := Input.span isNameChar (cs.drop 1)
  if name.isEmpty || !(isWideGap rest.peek || "?:,]\x7d%@\x60".toList.contains rest.peek) then
    .error .malformed
  else .ok (String.ofList name, rest)

/-- The characters that a tag may hold. -/
def isTagChar (c : Char) : Bool :=
  isWordChar c || "-;/?:@&=+$,_.!~*\x27()[]%".toList.contains c

/-- The bytes that are written one after another, each by a percent sign and two
digits. -/
def escapedBytes : Input → Except Fault (List UInt8 × Input)
  | p :: a :: b :: rest =>
    if p.char == '%' then
      match hexValue? a.char, hexValue? b.char with
      | some high, some low => do
        let (bytes, rest) ← escapedBytes rest
        pure (UInt8.ofNat (high * 16 + low) :: bytes, rest)
      | _, _ => .error .malformed
    else .ok ([], p :: a :: b :: rest)
  | p :: rest => if p.char == '%' then .error .malformed else .ok ([], p :: rest)
  | [] => .ok ([], [])

/-- The text of some bytes. -/
def textOfBytes (bytes : List UInt8) : Except Fault (List Char) :=
  match String.fromUTF8? ⟨bytes.toArray⟩ with
  | some s => .ok s.toList
  | none => .error .malformed

/-- The characters of a tag. -/
def tagChars : Nat → Input → Except Fault (List Char × Input)
  | 0, cs => .ok ([], cs)
  | fuel + 1, cs =>
    if cs.peek == '%' then do
      let (bytes, rest) ← escapedBytes cs
      let text ← textOfBytes bytes
      let (more, rest) ← tagChars fuel rest
      pure (text ++ more, rest)
    else if isTagChar cs.peek then do
      let (more, rest) ← tagChars fuel (cs.drop 1)
      pure (cs.peek :: more, rest)
    else .ok ([], cs)

/-- A non-empty part of a tag. -/
def tagPart (cs : Input) : Except Fault (String × Input) := do
  if !isTagChar cs.peek then throw .malformed
  let (text, rest) ← tagChars cs.length cs
  pure (String.ofList text, rest)

/-- A handle: one exclamation mark, or a name between two. -/
def tagHandle (cs : Input) : Except Fault (String × Input) :=
  if cs.peek != '!' then .error .malformed
  else
    let (name, rest) := Input.span isNameChar (cs.drop 1)
    if name.isEmpty && rest.peek == ' ' then .ok ("!", rest)
    else if rest.peek == '!' then .ok (String.ofList ('!' :: name ++ ['!']), rest.drop 1)
    else .error .malformed

/-- The tag that comes next. -/
def tagName (cs : Input) : Except Fault (TagName × Input) := do
  let (tag, rest) ←
    if cs.second == '<' then do
      let (ending, rest) ← tagPart (cs.drop 2)
      if Input.peek rest != '>' then throw .malformed
      pure (⟨none, ending⟩, rest.drop 1)
    else if isWideGap cs.second then pure (⟨none, "!"⟩, cs.drop 1)
    else do
      let word := (Input.span (!isGap ·) (cs.drop 1)).1
      let (handle, rest) ←
        if word.contains '!' then tagHandle cs else pure ("!", cs.drop 1)
      let (ending, rest) ← tagPart rest
      pure (⟨some handle, ending⟩, rest)
  if isGap (Input.peek rest) then pure (tag, rest) else throw .malformed

/-- The most digits that a version number may have. -/
def maxVersionDigits : Nat := 4300

/-- A number of a version: whether it is one, and what follows it. -/
def versionNumber (cs : Input) : Except Fault (Bool × Input) :=
  let (digits, rest) := cs.span isAsciiDigit
  if digits.isEmpty then .error .malformed
  else if maxVersionDigits < digits.length then .error (.misuse .badValue)
  else .ok (numeral? 10 digits == some 1, rest)

/-- A version of two numbers, of which the first says whether it is known. -/
def version (cs : Input) : Except Fault (Directive × Input) := do
  let (isKnown, cs) ← versionNumber cs.skipSpaces
  if cs.peek != '.' then throw .malformed
  let (_, cs) ← versionNumber (cs.drop 1)
  if isGap cs.peek then pure (.version isKnown, cs) else throw .malformed

/-- A handle and what it stands for. -/
def tagDefinition (cs : Input) : Except Fault (Directive × Input) := do
  let (handle, cs) ← tagHandle cs.skipSpaces
  if cs.peek != ' ' then throw .malformed
  let (start, cs) ← tagPart cs.skipSpaces
  if isGap cs.peek then pure (.tag handle start, cs) else throw .malformed

/-- The directive that comes next, with its line. -/
def directive (cs : Input) : Except Fault (Directive × Input) := do
  let (name, cs) := Input.span isNameChar (cs.drop 1)
  if name.isEmpty || !isGap cs.peek then throw .malformed
  let word := String.ofList name
  let (d, cs) ←
    if word == "YAML" then version cs
    else if word == "TAG" then tagDefinition cs
    else pure (.other, cs.skip (!isLineEnd ·))
  let cs ← cs.restOfLine
  pure (d, cs)

end ClientForge.Yaml
