import ClientForge.CommandLine.Request
import ClientForge.Generation

/-!
# Sessions

One call of the program: what it shows on its two streams, how it ends, and the store
that it leaves. Progress goes to the first stream. Log records from the configured level
on go to the second, and so does the failure that ends a session, after all records.
-/

namespace ClientForge.CommandLine

/-- What a session finds: files, pages, and the variables of the environment. -/
structure Surroundings where
  store : FileStore
  web : Web
  environment : Table String
  deriving Inhabited

/-- How a session ends. -/
inductive Ending
  /-- The command came to its end. -/
  | returned (code : Nat)
  /-- Reading the command line ended the session. -/
  | left (code : Nat)
  /-- A misused value ended the session. -/
  | gaveUp (cause : Misuse)
  deriving DecidableEq, Repr, Inhabited

/-- A session that is over. -/
structure Session where
  ending : Ending
  shown : String
  complaints : String
  store : FileStore
  deriving Inhabited

/-- Lines, each ended. -/
def lines (ls : List String) : String := String.join (ls.map (· ++ "\n"))

/-- The setting that an option gives, null if the option is missing. Two dashes in the
place of its value count as no value, which is an empty list. -/
def Order.setting (o : Order) (name : String) : Value :=
  match o.value? name with
  | none => .null
  | some "--" => .list []
  | some s => .str s

/-- The value of an option, if it has one that is not empty. -/
def Order.filled? (o : Order) (name : String) : Option String :=
  (o.value? name).filter fun s => s != "" && s != "--"

/-- Such a value as a setting. -/
def Order.filled (o : Order) (name : String) : Value := ((o.filled? name).map Value.str).getD .null

/-- The settings that an order gives. -/
def Order.overrides (o : Order) : Table Value :=
  [("language", .str o.language), ("api_name", o.setting "--api-name"),
    ("client_name", o.setting "--client-name"), ("output_dir", o.filled "--out"),
    ("vendor_prefix", o.setting "--vendor-prefix"),
    ("package_name", o.setting "--package-name"), ("base_url", o.setting "--base-url"),
    ("version", o.setting "--package-version"),
    ("log_level", ((o.filled? "--log-level").map fun s => Value.str (Text.upper s)).getD .null),
    ("on_unrecognized", if o.isStrict then .str Policy.refuse.name else .null)]

/-- The configuration of an order in its surroundings. -/
def Order.configuration (o : Order) (s : Surroundings) : Outcome Configuration := do
  let file := (o.filled? "--config").map FilePath.ofText
  let c ← Configuration.load s.store file none s.environment
  c.withOverrides o.overrides

/-- What is shown before the work starts. -/
def opening (c : Configuration) (location : String) : String :=
  lines
    ["Generating " ++ c.language.name ++ " client: " ++ c.apiName.text, "",
      "Step 1/3: Loading specification...", "   Source: " ++ location,
      "Step 2/3: Building type definitions and rendering..."]

/-- What is shown when the work is done. -/
def closing (target : FilePath) (p : Product) : String :=
  lines
    ["   ✓ " ++ toString p.definitions.length ++ " types, " ++ toString p.actions.length ++
        " actions",
      "Step 3/3: Complete!", "", "   Location: " ++ target.text,
      "   Files written: " ++ toString p.written.length,
      "   Build hash: " ++ String.ofList (p.fingerprint.toList.take 12)]

/-- The records that a level lets through, as lines. -/
def logged (level : LogLevel) (records : List Record) : String :=
  lines ((records.filter fun r => level.rank ≤ r.severity.rank).map Record.line)

/-- The end of a session that failed. -/
def failed (shown log : String) (store : FileStore) (f : Failure) : Session :=
  match f with
  | .misuse cause => ⟨.gaveUp cause, shown, log, store⟩
  | _ =>
    ⟨.returned 1, shown, log ++ lines ((f.report?.toList).map fun r => "   ✗ " ++ r.line), store⟩

/-- Generate from the specification at a location, and tell how far it came. -/
def generate (c : Configuration) (location : String) (s : Surroundings) : Session :=
  let (outcome, w) := (Generation.ofLocation c none s.web location).run.run ⟨s.store, []⟩
  let shown := opening c location
  let log := logged c.logLevel w.records
  match outcome, c.targetDir with
  | .ok p, .ok target => ⟨.returned 0, shown ++ closing target p, log, w.store⟩
  | .error f, _ => failed shown log w.store f
  | .ok _, .error f => failed shown log w.store f

/-- Carry an order out. Nothing is shown if the name of the interface cannot be. -/
def Order.carryOut (o : Order) (s : Surroundings) : Session :=
  match o.configuration s with
  | .error f => failed "" "" s.store f
  | .ok c =>
    if c.apiName.isWritable then generate c o.location s
    else failed "" "" s.store (.misuse .badValue)

/-- How the program and its command are called. -/
def usage (speaker : String) : String :=
  "usage: " ++ speaker ++
    if speaker == program then " [-h] [--version] " ++ generateName ++ " ...\n"
    else " [-h] [options] language spec\n"

/-- The session of a request. -/
def Request.run (r : Request) (s : Surroundings) : Session :=
  match r with
  | generate o => o.carryOut s
  | nothing => ⟨.returned 1, usage program, "", s.store⟩
  | help speaker => ⟨.left 0, usage speaker, "", s.store⟩
  | version => ⟨.left 0, lines [program ++ " " ++ programVersion], "", s.store⟩
  | refused speaker message =>
    ⟨.left 2, "", usage speaker ++ lines [speaker ++ ": error: " ++ message], s.store⟩

/-- One call of the program. -/
def session (args : List String) (s : Surroundings) : Session :=
  (Request.ofArguments args).run s

end ClientForge.CommandLine
