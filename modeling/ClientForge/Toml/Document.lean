import ClientForge.Toml.Scalar

/-!
# Settings files

A settings file is a sequence of lines: pairs of a key and a value, headers that open
a table, and headers that add a table to a list. Keys may be dotted. What a header or
a dotted key has opened may not be opened again by a header, a table or a list that
was written inline is closed to later additions, and no key is written twice.
-/

namespace ClientForge.Toml

open ClientForge.Text ClientForge.Value

/-- A dotted key as its parts. -/
abbrev Key := List String

/-- Why a key is not open to everything. -/
inductive Mark
  /-- Nothing may be added to it or below it. -/
  | closed
  /-- It may not be opened by a header. -/
  | opened
  deriving DecidableEq, Repr

/-- The marks of a document. Those that wait are set when the next header comes. -/
structure Marks where
  set : List (Key × Mark)
  waiting : List (Key × Mark)

namespace Marks

def empty : Marks := ⟨[], []⟩

/-- Whether a key has a mark. A closed key also closes what is below it. -/
def has (m : Marks) (key : Key) (mark : Mark) : Bool :=
  m.set.any fun e =>
    e.2 == mark && (e.1 == key || (mark == .closed && e.1.isPrefixOf key && e.1 != key))

def add (key : Key) (mark : Mark) (m : Marks) : Marks := { m with set := (key, mark) :: m.set }

/-- A mark that is set with the next header. -/
def await (key : Key) (mark : Mark) (m : Marks) : Marks :=
  { m with waiting := (key, mark) :: m.waiting }

/-- Set the marks that wait. -/
def settle (m : Marks) : Marks := ⟨m.waiting ++ m.set, []⟩

/-- Take the marks of a key and of everything below it away. -/
def free (key : Key) (m : Marks) : Marks :=
  { m with set := m.set.filter fun e => !key.isPrefixOf e.1 }

end Marks

/-- Change the table behind a key, with missing tables made on the way. Where a key
leads to a list of tables, the last one is meant, if lists may be entered. -/
def changeTable (intoLists : Bool) (f : Entries → Option Entries) :
    Key → Entries → Option Entries
  | [], es => f es
  | part :: rest, es =>
    match Entries.text? part es with
    | none => (changeTable intoLists f rest []).map fun inner => es.put (.str part) (.map inner)
    | some (.map inner) =>
      (changeTable intoLists f rest inner).map fun inner => es.put (.str part) (.map inner)
    | some (.list items) =>
      match intoLists, items.getLast? with
      | true, some (.map inner) =>
        (changeTable intoLists f rest inner).map fun inner =>
          es.put (.str part) (.list (items.dropLast ++ [.map inner]))
      | _, _ => none
    | some _ => none

/-- Write a value under a new name. -/
def writeNew (name : String) (v : Value) (es : Entries) : Option Entries :=
  if Entries.hasText name es then none else some (es ++ [(.str name, v)])

/-- Add an empty table to the list under a name. -/
def appendTable (name : String) (es : Entries) : Option Entries :=
  match Entries.text? name es with
  | none => some (es ++ [(.str name, .list [.map []])])
  | some (.list items) => some (es.put (.str name) (.list (items ++ [.map []])))
  | some _ => none

def isBareKeyChar (c : Char) : Bool := isWordChar c || c == '-' || c == '_'

/-- One part of a key. -/
def keyPart? (cs : List Char) : Option (String × List Char) :=
  match cs with
  | [] => none
  | c :: _ =>
    if isBareKeyChar c then
      some (String.ofList (cs.takeWhile isBareKeyChar), cs.dropWhile isBareKeyChar)
    else (shortString? cs).map fun r => (String.ofList r.1, r.2)

/-- A dotted key, with the blanks after it. -/
def key? : Nat → List Char → Option (Key × List Char)
  | 0, _ => none
  | fuel + 1, cs => do
    let (part, rest) ← keyPart? cs
    match rest.dropWhile isSpace with
    | '.' :: more => do
      let (parts, rest) ← key? fuel (more.dropWhile isSpace)
      pure (part :: parts, rest)
    | rest => pure ([part], rest)

/-- Skip a comment up to the end of its line. -/
def skipComment : List Char → Option (List Char)
  | [] => some []
  | c :: rest =>
    if c == '\n' then some (c :: rest) else if isControl c then none else skipComment rest

/-- Skip a comment if there is one. -/
def comment? : List Char → Option (List Char)
  | '#' :: rest => skipComment rest
  | cs => some cs

/-- Skip blanks, line ends and comments. -/
def skipLoose (inComment : Bool) : List Char → Option (List Char)
  | [] => some []
  | c :: rest =>
    if inComment then
      if c == '\n' then skipLoose false rest
      else if isControl c then none else skipLoose true rest
    else if isSpaceOrLineEnd c then skipLoose false rest
    else if c == '#' then skipLoose true rest
    else some (c :: rest)

/-- A table that is being read inline, with its marks. -/
structure InlineTable where
  entries : Entries
  marks : Marks

/-- Whether a value is a table or a list. -/
def isContainer : Value → Bool
  | .map _ => true
  | .list _ => true
  | _ => false

/-- Write a pair into an inline table. -/
def InlineTable.write (t : InlineTable) (key : Key) (v : Value) : Option InlineTable := do
  if t.marks.has key .closed then none
  let name ← key.getLast?
  let entries ← changeTable false (writeNew name v) key.dropLast t.entries
  pure ⟨entries, if isContainer v then t.marks.add key .closed else t.marks⟩

mutual

/-- The value at the head of a text. -/
def value : Nat → List Char → Except Fault (Value × List Char)
  | 0, _ => .error .malformed
  | fuel + 1, cs =>
    match cs with
    | '[' :: rest => do
      let rest ← found (skipLoose false rest)
      match rest with
      | ']' :: more => pure (.list [], more)
      | _ => items fuel [] rest
    | '\x7b' :: rest =>
      match rest.dropWhile isSpace with
      | '\x7d' :: more => .ok (.map [], more)
      | rest => pairs fuel ⟨[], .empty⟩ rest
    | _ => scalar cs

/-- The items of a list from one on, after those that were read. -/
def items : Nat → List Value → List Char → Except Fault (Value × List Char)
  | 0, _, _ => .error .malformed
  | fuel + 1, done, cs => do
    let (v, rest) ← value fuel cs
    let done := done ++ [v]
    let rest ← found (skipLoose false rest)
    match rest with
    | ']' :: more => pure (.list done, more)
    | ',' :: more => do
      let rest ← found (skipLoose false more)
      match rest with
      | ']' :: more => pure (.list done, more)
      | _ => items fuel done rest
    | _ => .error .malformed

/-- The pairs of an inline table from one on, after those that were read. -/
def pairs : Nat → InlineTable → List Char → Except Fault (Value × List Char)
  | 0, _, _ => .error .malformed
  | fuel + 1, table, cs => do
    let (key, rest) ← found (key? fuel cs)
    match rest with
    | '=' :: rest => do
      let (v, rest) ← value fuel (rest.dropWhile isSpace)
      let table ← found (table.write key v)
      match rest.dropWhile isSpace with
      | '\x7d' :: more => pure (.map table.entries, more)
      | ',' :: more => pairs fuel table (more.dropWhile isSpace)
      | _ => .error .malformed
    | _ => .error .malformed

end

/-- A document that is being read: its tables, its marks, and the open table. -/
structure Reader where
  entries : Entries
  marks : Marks
  header : Key

/-- Check the tables that a dotted key goes through and mark them. -/
def Reader.through (header : Key) (marks : Marks) : List Key → Option Marks
  | [] => some marks
  | part :: rest =>
    if marks.has (header ++ part) .opened then none
    else Reader.through header (marks.await (header ++ part) .opened) rest

/-- The proper non-empty beginnings of a key, shortest first. -/
def beginnings (key : Key) : List Key := (List.range (key.length - 1)).map fun i => key.take (i + 1)

/-- Write a pair into the open table. -/
def Reader.write (r : Reader) (key : Key) (v : Value) : Option Reader := do
  let marks ← Reader.through r.header r.marks (beginnings key)
  let above := r.header ++ key.dropLast
  if marks.has above .closed then none
  let name ← key.getLast?
  let entries ← changeTable true (writeNew name v) above r.entries
  pure { r with
    entries
    marks := if isContainer v then marks.add (r.header ++ key) .closed else marks }

/-- Open a table. -/
def Reader.openTable (r : Reader) (key : Key) : Option Reader := do
  if r.marks.has key .opened || r.marks.has key .closed then none
  let entries ← changeTable true some key r.entries
  pure ⟨entries, r.marks.add key .opened, key⟩

/-- Add a table to a list and open it. -/
def Reader.addTable (r : Reader) (key : Key) : Option Reader := do
  if r.marks.has key .closed then none
  let name ← key.getLast?
  let entries ← changeTable true (appendTable name) key.dropLast r.entries
  pure ⟨entries, (r.marks.free key).add key .opened, key⟩

/-- One statement at the head of a text, with the blanks after it. -/
def statement (fuel : Nat) (r : Reader) (cs : List Char) : Except Fault (Reader × List Char) :=
  match cs with
  | '[' :: '[' :: rest => do
    let (key, rest) ← found (key? fuel (rest.dropWhile isSpace))
    let r ← found (Reader.addTable { r with marks := r.marks.settle } key)
    match rest with
    | ']' :: ']' :: more => pure (r, more.dropWhile isSpace)
    | _ => .error .malformed
  | '[' :: rest => do
    let (key, rest) ← found (key? fuel (rest.dropWhile isSpace))
    let r ← found (Reader.openTable { r with marks := r.marks.settle } key)
    match rest with
    | ']' :: more => pure (r, more.dropWhile isSpace)
    | _ => .error .malformed
  | '#' :: _ => .ok (r, cs)
  | _ => do
    let (key, rest) ← found (key? fuel cs)
    match rest with
    | '=' :: rest => do
      let (v, rest) ← value fuel (rest.dropWhile isSpace)
      let r ← found (r.write key v)
      pure (r, rest.dropWhile isSpace)
    | _ => .error .malformed

/-- The statements of a text, line by line. -/
def statements : Nat → Reader → List Char → Except Fault Entries
  | 0, _, _ => .error .malformed
  | fuel + 1, r, cs =>
    match cs.dropWhile isSpace with
    | [] => .ok r.entries
    | '\n' :: rest => statements fuel r rest
    | cs => do
      let (r, rest) ← statement (fuel + 1) r cs
      let rest ← found (comment? rest)
      match rest with
      | [] => pure r.entries
      | '\n' :: rest => statements fuel r rest
      | _ => .error .malformed

/-- A carriage return before a line feed is dropped. -/
def plainLineEnds : List Char → List Char
  | '\r' :: '\n' :: rest => '\n' :: plainLineEnds rest
  | c :: rest => c :: plainLineEnds rest
  | [] => []

/-- The tables of a settings file, or the first fault in it. -/
def parse (s : String) : Except Fault Entries :=
  let cs := plainLineEnds s.toList
  statements (cs.length + 2) ⟨[], .empty, []⟩ cs

end ClientForge.Toml
