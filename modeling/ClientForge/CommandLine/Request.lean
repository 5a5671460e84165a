import ClientForge.CommandLine.Option
import ClientForge.Failure

/-!
# Requests

What a command line asks for. Options before the command are those of the program, and
everything from the command on belongs to the command. The one command there is
generates a client library; it needs a target language and the location of a
specification, and the last value of an option that is given several times counts.
Asking for help or for the version ends the reading at once, and so does the first word
that is wrong.
-/

namespace ClientForge.CommandLine

/-- The name of the program. -/
def program : String := "clientgen"

/-- The version of the program. -/
def programVersion : String := "1.0.0"

/-- The name of the command. -/
def generateName : String := "generate"

def helpFlag : Flag := ⟨["-h", "--help"], false⟩

def versionFlag : Flag := ⟨["--version"], false⟩

def strictFlag : Flag := ⟨["--strict"], false⟩

/-- The options of the program. -/
def programFlags : List Flag := [helpFlag, versionFlag]

def valueFlag (names : List String) : Flag := ⟨names, true⟩

/-- The options of the command. -/
def generateFlags : List Flag :=
  [helpFlag, valueFlag ["--api-name"], valueFlag ["--client-name"], valueFlag ["--out", "-o"],
    valueFlag ["--vendor-prefix"], valueFlag ["--package-name"], valueFlag ["--base-url"],
    valueFlag ["--package-version"], valueFlag ["--config"], strictFlag,
    valueFlag ["--log-level"]]

/-- What the command is to do: the words that it needs and the options that were met. -/
structure Order where
  language : String
  location : String
  occurrences : List Occurrence
  deriving Repr, Inhabited

/-- The last value of an option. -/
def Order.value? (o : Order) (name : String) : Option String :=
  (o.occurrences.reverse.find? fun c => c.flag.names.contains name).bind (·.value)

def Order.isStrict (o : Order) : Bool := o.occurrences.any (·.flag == strictFlag)

/-- What a command line asks for. -/
inductive Request
  | generate (o : Order)
  /-- Nothing was asked for. -/
  | nothing
  | help (speaker : String)
  | version
  /-- The command line is wrong; the speaker says why. -/
  | refused (speaker message : String)
  deriving Repr, Inhabited

/-- Reading a command line: it may end early with what is asked for. -/
abbrev Reader := Except Request

def invalidChoice (argument value : String) (choices : List String) : String :=
  "argument " ++ argument ++ ": invalid choice: " ++ Text.Quoted.text value ++ " (choose from " ++
    ", ".intercalate (choices.map Text.Quoted.text) ++ ")"

/-- Options take their effects in turn: help and the version end the reading. -/
def heed (speaker : String) (met : List Occurrence) : Reader Unit :=
  match met.find? fun c => c.flag == helpFlag || c.flag == versionFlag with
  | some c => .error (if c.flag == helpFlag then .help speaker else .version)
  | none => .ok ()

/-- A refusal by a speaker. -/
def refuse {α : Type} (speaker : String) (x : Except String α) : Reader α :=
  x.mapError fun message => .refused speaker message

/-- The name by which the command speaks. -/
def generateSpeaker : String := program ++ " " ++ generateName

/-- What was read of the command's words so far. -/
structure Progress where
  /-- The language and the location, as far as they came. -/
  given : List String
  occurrences : List Occurrence
  extras : List String
  deriving Inhabited

/-- Two dashes right behind a word that is needed belong to that word. -/
def skipDivider : List Word → List Word
  | .divider :: rest => rest
  | ws => ws

/-- A word that is needed. Two dashes in its place count as no value. -/
def neededText (s : String) : String := if s == "--" then "[]" else s

/-- Take a word that is needed: first the language, then the location. -/
def take (s : String) (p : Progress) : Reader Progress :=
  if p.given.isEmpty && (Language.ofName? s).isNone then
    .error (.refused generateSpeaker
      (invalidChoice "language" s (Language.all.map Language.name)))
  else .ok { p with given := p.given ++ [s] }

/-- Whether all words that are needed came. -/
def Progress.isFull (p : Progress) : Bool := 2 ≤ p.given.length

/-- Read the command's words. -/
def readOrder : Nat → Progress → List Word → Reader Progress
  | 0, p, _ => .ok p
  | _ + 1, p, [] => .ok p
  | fuel + 1, p, w :: rest =>
    match w with
    | .stranger raw => readOrder fuel { p with extras := p.extras ++ [raw] } rest
    | .option _ f name text => do
      let (met, rest) ← refuse generateSpeaker (consume generateFlags f name text rest)
      heed generateSpeaker met
      readOrder fuel { p with occurrences := p.occurrences ++ met } rest
    | .plain s =>
      if p.isFull then readOrder fuel { p with extras := p.extras ++ [s] } rest
      else do
        let p ← take (neededText s) p
        readOrder fuel p (skipDivider rest)
    | .divider =>
      match p.isFull, rest with
      | false, .plain s :: rest => do
        let p ← take s p
        readOrder fuel p rest
      | _, _ => readOrder fuel { p with extras := p.extras ++ ["--"] } rest

/-- The names of the words that are still needed. -/
def missing (p : Progress) : List String := ["language", "spec"].drop p.given.length

/-- The order that the command's words give, and the words that it has no use for. -/
def order (args : List String) : Reader (Order × List String) := do
  let ws ← refuse generateSpeaker (words generateFlags args)
  let p ← readOrder (ws.length + 1) ⟨[], [], []⟩ ws
  match p.given with
  | [language, location] => pure (⟨language, location, p.occurrences⟩, p.extras)
  | _ =>
    throw (.refused generateSpeaker
      ("the following arguments are required: " ++ ", ".intercalate (missing p)))

/-- Refuse words that nothing has a use for. -/
def noExtras (extras : List String) : Reader Unit :=
  if extras.isEmpty then .ok ()
  else .error (.refused program ("unrecognized arguments: " ++ " ".intercalate extras))

/-- The command of a name with the words after it. -/
def command (name : String) (extras rest : List String) : Reader Request := do
  if name == generateName then
    let (o, more) ← order rest
    noExtras (extras ++ more)
    pure (.generate o)
  else throw (.refused program (invalidChoice "command" name [generateName]))

/-- Read the words of the program up to its command. -/
def readProgram : Nat → List String → List Word → Reader Request
  | 0, _, _ => .ok .nothing
  | _ + 1, extras, [] => do
    noExtras extras
    pure .nothing
  | fuel + 1, extras, w :: rest =>
    match w with
    | .stranger raw => readProgram fuel (extras ++ [raw]) rest
    | .option _ f name text => do
      let (met, rest) ← refuse program (consume programFlags f name text rest)
      heed program met
      readProgram fuel extras rest
    | .plain s => command s extras (rest.map Word.raw)
    | .divider =>
      match rest with
      | [] => readProgram fuel (extras ++ ["--"]) []
      | _ => command "--" extras (rest.map Word.raw)

/-- What a command line asks for. -/
def Request.ofArguments (args : List String) : Request :=
  let r : Reader Request := do
    let ws ← refuse program (words programFlags args)
    readProgram (ws.length + 1) [] ws
  match r with
  | .ok request => request
  | .error request => request

end ClientForge.CommandLine
