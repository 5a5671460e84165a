import ClientForge.Text.Digit
import ClientForge.Text.Quoted

/-!
# Options of a command line

Which words of a command line are options, and which values they take. An option may be
shortened as long as only one begins that way, its value may follow an equals sign, and
one-letter options may stand together behind one dash. Negative numbers and texts with
spaces are no options, and behind two dashes nothing is.
-/

namespace ClientForge.CommandLine

open ClientForge.Text

/-- An option: its names in the order in which they are listed, and whether it takes a
value. -/
structure Flag where
  names : List String
  takesValue : Bool
  deriving DecidableEq, Repr, Inhabited

/-- The name of an option in messages. -/
def Flag.title (f : Flag) : String := "/".intercalate f.names

/-- A word of a command line. -/
inductive Word
  | plain (s : String)
  /-- The two dashes behind which nothing is an option. -/
  | divider
  /-- An option by one of its names, with what the word attaches to it: the text behind an
  equals sign, or right behind a letter. -/
  | option (raw : String) (flag : Flag) (name : String) (attached : Option (List Char))
  /-- A word that looks like an option and is none. -/
  | stranger (raw : String)
  deriving DecidableEq, Repr, Inhabited

/-- The word as it was written. -/
def Word.raw : Word → String
  | plain s => s
  | divider => "--"
  | option raw _ _ _ => raw
  | stranger raw => raw

/-- An option that was met, with its value if it takes one. -/
structure Occurrence where
  flag : Flag
  value : Option String
  deriving DecidableEq, Repr, Inhabited

/-- All names of some options, each with its option. -/
def namesOf (flags : List Flag) : List (String × Flag) :=
  flags.flatMap fun f => f.names.map (·, f)

def flagOf? (flags : List Flag) (name : String) : Option Flag :=
  ((namesOf flags).find? (·.1 == name)).map (·.2)

/-- A word cut at its first equals sign. -/
def atEquals (s : String) : String × Option (List Char) :=
  let cs := s.toList
  let name := cs.takeWhile (· != '=')
  if name.length < cs.length then (String.ofList name, some (cs.drop (name.length + 1)))
  else (s, none)

/-- The options that a word with two dashes may be short for. -/
def expansions (flags : List Flag) (s : String) : List (String × Flag × Option (List Char)) :=
  let (start, attached) := atEquals s
  ((namesOf flags).filter fun e => startsWith e.1 start).map fun e => (e.1, e.2, attached)

/-- The one-letter options that a word with one dash may start with. -/
def letters (flags : List Flag) (s : String) : List (String × Flag × Option (List Char)) :=
  let letter := String.ofList (s.toList.take 2)
  (namesOf flags).filterMap fun e =>
    if e.1 == letter then some (e.1, e.2, some (s.toList.drop 2))
    else if startsWith e.1 s then some (e.1, e.2, none)
    else none

/-- A minus sign before a number without an exponent. -/
def isNegativeNumber (s : String) : Bool :=
  match s.toList with
  | '-' :: rest =>
    let rest := if rest.getLast? == some '\n' then rest.dropLast else rest
    let whole := rest.takeWhile isDigit
    match rest.drop whole.length with
    | [] => !whole.isEmpty
    | '.' :: fraction => !fraction.isEmpty && fraction.all isDigit
    | _ => false
  | _ => false

/-- The message about a word that is short for several options. -/
def ambiguity (s : String) (matches_ : List String) : String :=
  "ambiguous option: " ++ s ++ " could match " ++ ", ".intercalate matches_

/-- What a word is, or the message about it. -/
def classify (flags : List Flag) (s : String) : Except String Word :=
  match s.toList with
  | '-' :: second :: _ =>
    match flagOf? flags s, atEquals s with
    | some f, _ => .ok (.option s f s none)
    | none, (name, attached) =>
      match if attached.isSome then flagOf? flags name else none with
      | some f => .ok (.option s f name attached)
      | none =>
        match if second == '-' then expansions flags s else letters flags s with
        | [(name, f, attached)] => .ok (.option s f name attached)
        | [] =>
          if isNegativeNumber s || s.toList.contains ' ' then .ok (.plain s) else .ok (.stranger s)
        | several => .error (ambiguity s (several.map (·.1)))
  | _ => .ok (.plain s)

/-- The words of a command line, or the message about one of them. -/
def words (flags : List Flag) : List String → Except String (List Word)
  | [] => .ok []
  | s :: rest =>
    if s == "--" then .ok (.divider :: rest.map .plain)
    else do
      let w ← classify flags s
      let ws ← words flags rest
      pure (w :: ws)

/-- The message about a value that an option does not take. -/
def ignoredValue (f : Flag) (value : String) : String :=
  "argument " ++ f.title ++ ": ignored explicit argument " ++ Quoted.text value

/-- The message about a value that is missing. -/
def missingValue (f : Flag) : String := "argument " ++ f.title ++ ": expected one argument"

/-- What one word with options brings: the options that were met, and the option that
still needs a value. -/
structure Cluster where
  met : List Occurrence
  unfinished : Option Flag

/-- Whether an option has a one-letter name. -/
def isLetter (name : String) : Bool := (name.toList.drop 1).head? != some '-'

/-- An option with nothing attached to it. -/
def alone (f : Flag) : Cluster :=
  if f.takesValue then ⟨[], some f⟩ else ⟨[⟨f, none⟩], none⟩

/-- The options of a word behind one that takes no value. -/
def Cluster.after (f : Flag) (c : Cluster) : Cluster := { c with met := ⟨f, none⟩ :: c.met }

/-- The options of a word whose first option has something attached. An option that takes
a value takes all of it. Behind a letter that takes none it is read as further letters,
whichever way it is attached. -/
def attached (flags : List Flag) (f : Flag) (name : String) :
    List Char → Except String Cluster
  | [] =>
    if f.takesValue then .ok ⟨[⟨f, some ""⟩], none⟩ else .error (ignoredValue f "")
  | letter :: rest =>
    let text := String.ofList (letter :: rest)
    if f.takesValue then .ok ⟨[⟨f, some text⟩], none⟩
    else if !isLetter name then .error (ignoredValue f text)
    else
      let next := String.ofList ['-', letter]
      match flagOf? flags next, rest with
      | none, _ => .error (ignoredValue f text)
      | some g, [] => .ok ((alone g).after f)
      | some g, r :: more => (attached flags g next (r :: more)).map (·.after f)

/-- The options that a word brings. -/
def cluster (flags : List Flag) (f : Flag) (name : String) :
    Option (List Char) → Except String Cluster
  | some text => attached flags f name text
  | none => .ok (alone f)

/-- The options that begin with a word, with a value from the word after it if one is
needed, and the words that are left. -/
def consume (flags : List Flag) (f : Flag) (name : String) (text : Option (List Char))
    (rest : List Word) : Except String (List Occurrence × List Word) := do
  let c ← cluster flags f name text
  match c.unfinished, rest with
  | none, _ => pure (c.met, rest)
  | some g, .plain v :: more => pure (c.met ++ [⟨g, some v⟩], more)
  | some g, _ => throw (missingValue g)

end ClientForge.CommandLine
