import ClientForge.Catalog
import ClientForge.Emission.Tree
import ClientForge.FileStore
import ClientForge.Text.Case
import ClientForge.Toml.Document

/-!
# Configurations

The settings of one run. They come in layers: defaults, a settings file, variables of
the environment, and overrides from the command line, later layers winning. Language,
policy and log level are checked against the names that exist and the name of the
interface may not be empty; the other settings are taken as they are. A relative
output folder is seen from the folder of the settings file if it comes from there.
-/

namespace ClientForge

open ClientForge.Value

def Policy.name : Policy → String
  | .warn => "warn"
  | .refuse => "error"
  | .ignore => "ignore"

/-- The settings of a run. -/
structure Configuration where
  language : Language
  apiName : Value
  clientName : Value
  outputDir : FilePath
  vendorPrefix : Value
  packageName : Value
  commonPackage : Value
  policy : Policy
  logLevel : LogLevel
  baseUrl : Value
  version : Value
  deriving Inhabited

namespace Configuration

/-- The settings under their names. -/
def toTable (c : Configuration) : Table Value :=
  [("language", .str c.language.name), ("api_name", c.apiName), ("client_name", c.clientName),
    ("output_dir", .str c.outputDir.text), ("vendor_prefix", c.vendorPrefix),
    ("package_name", c.packageName), ("common_package", c.commonPackage),
    ("on_unrecognized", .str c.policy.name), ("log_level", .str c.logLevel.name),
    ("base_url", c.baseUrl), ("version", c.version)]

def default : Configuration where
  language := .javascript
  apiName := .str "api"
  clientName := .null
  outputDir := ⟨"", ["build"]⟩
  vendorPrefix := .str ""
  packageName := .null
  commonPackage := .null
  policy := .warn
  logLevel := .info
  baseUrl := .null
  version := .str "1.0.0"

/-- The names of the settings. -/
def names : List String := default.toTable.names

/-- The folder that a setting names. -/
def folderOf (v : Value) : Outcome FilePath :=
  match v with
  | .str s => .ok (.ofText s)
  | _ => misused .wrongType

def languageOf (v : Value) : Outcome Language :=
  match v.text?.bind Language.ofName? with
  | some l => .ok l
  | none => do
    needWritable [v]
    throw (.configuration (.language v))

def policyOf (v : Value) : Outcome Policy :=
  match v.text?.bind Policy.ofName? with
  | some p => .ok p
  | none => .error (.configuration .policy)

/-- The level of a name in any case of letters. -/
def logLevelOf (v : Value) : Outcome LogLevel :=
  let name := Text.upper v.text
  match LogLevel.ofName? name with
  | some l => .ok l
  | none => .error (.configuration (.logLevel name))

/-- The configuration of some settings, all others at their defaults. Values are checked
in a fixed order, the output folder first. -/
def ofTable (settings : Table Value) : Outcome Configuration := do
  if settings.any fun e => !names.contains e.1 then misused .wrongType
  let get := fun (name : String) => (default.toTable.update settings).get? name |>.getD .null
  let outputDir ← folderOf (get "output_dir")
  needWritable [get "log_level"]
  let language ← languageOf (get "language")
  if !(get "api_name").isTruthy then throw (.configuration .emptyApiName)
  let policy ← policyOf (get "on_unrecognized")
  let logLevel ← logLevelOf (get "log_level")
  pure {
    language
    apiName := get "api_name"
    clientName := get "client_name"
    outputDir
    vendorPrefix := get "vendor_prefix"
    packageName := get "package_name"
    commonPackage := get "common_package"
    policy
    logLevel
    baseUrl := get "base_url"
    version := get "version" }

/-- Names in the order of their code points. -/
def sortedNames (xs : List String) : List String :=
  sortBy (fun a b => Text.codeLess a.toList b.toList) xs

/-- The name that stands for the configuration itself, which nothing can replace. -/
def reservedName : String := "self"

/-- The configuration with some settings replaced; null replaces nothing. -/
def withOverrides (c : Configuration) (overrides : Table Value) : Outcome Configuration := do
  if (Table.names overrides).contains reservedName then misused .wrongType
  let given := overrides.filter fun e => !e.2.isNull
  let unknown := (Table.names given).filter fun n => !names.contains n
  if !unknown.isEmpty then throw (.configuration (.unknownSettings (sortedNames unknown)))
  ofTable (c.toTable.update given)

/-- The folder that the generated tree is written to. -/
def targetDir (c : Configuration) : Outcome FilePath := do
  let name ← folderOf c.apiName
  pure (c.outputDir.join name)

/-- The names of the settings files that are looked for. -/
def fileNames : List String := ["clientgen.toml", "pyproject.toml"]

def environmentPrefix : String := "CLIENTGEN_"

/-- The settings that variables of the environment give; empty ones give none. -/
def ofEnvironment (environ : Table String) : Table Value :=
  names.filterMap fun name =>
    match environ.get? (environmentPrefix ++ String.ofList (name.toList.map Naming.capital)) with
    | some "" => none
    | some s => some (name, .str s)
    | none => none

/-- Whether a path leads anywhere. -/
def pathExists (fs : FileStore) (p : FilePath) : Outcome Bool :=
  match fs.has p with
  | .ok b => .ok b
  | .error _ => misused .unsearchable

/-- The first path of some that leads anywhere. -/
def firstExisting (fs : FileStore) : List FilePath → Outcome (Option FilePath)
  | [] => .ok none
  | p :: rest => do
    if ← pathExists fs p then pure (some p) else firstExisting fs rest

/-- The settings file: the one that was asked for, or the first that is in the folder. -/
def locate (fs : FileStore) (root : FilePath) (asked : Option FilePath) :
    Outcome (Option FilePath) :=
  match asked with
  | some p => do
    if ← pathExists fs p then pure (some p)
    else throw (.configuration (.fileNotFound p.text))
  | none => firstExisting fs (fileNames.map root.child)

/-- The table of a part of a settings file, empty if it is missing. -/
def part (name : String) (v : Value) : Outcome Value :=
  match v with
  | .map es => .ok ((Entries.text? name es).getD (.map []))
  | _ => misused .noSuchPart

/-- The settings of a file: those of its own table if it has one. A project file keeps
them in the tables of its tools. -/
def settingsOf (fileName : String) (es : Entries) : Outcome Value :=
  if fileName == "pyproject.toml" then do
    let tool ← part "tool" (.map es)
    part "clientgen" tool
  else .ok ((Entries.text? "clientgen" es).getD (.map es))

/-- Read a settings file. -/
def readFile (fs : FileStore) (p : FilePath) : Outcome Value :=
  match fs.read p with
  | .error f => .error (.configuration (.notRead p.text f.text))
  | .ok content =>
    match String.fromUTF8? content with
    | none => misused .undecodable
    | some s =>
      match Toml.parse (Text.ofCharacters s) with
      | .error .malformed => .error (.configuration (.malformed p.text))
      | .error .tooManyDigits => misused .badValue
      | .ok es => settingsOf p.name es

/-- Refuse names that are no settings. -/
def checkNames (file : String) (given : List String) : Outcome Unit :=
  let unknown := given.filter fun n => !names.contains n
  if unknown.isEmpty then .ok ()
  else .error (.configuration (.unknownSettingsIn file (sortedNames unknown.eraseDups)))

/-- The settings that a file's value gives. Only a table gives settings; a text or a
list is searched for names that are no settings before it is refused. -/
def tableOf (file : String) (v : Value) : Outcome (Table Value) :=
  match v with
  | .map es => do
    let table : Table Value := es.map fun e => (e.1.text, e.2)
    checkNames file (Table.names table)
    pure table
  | .str s => do
    checkNames file (s.toList.map fun c => String.ofList [c])
    misused .noSuchPart
  | .list items => do
    if items.any fun v => !v.isKey then misused .wrongType
    let unknown := items.filter fun v => !(v.text?.any names.contains)
    if unknown.any fun v => v.text?.isNone then misused .wrongType
    checkNames file (items.map (·.text))
    if items.any fun v => v.same (.str "output_dir") then misused .wrongType
    else misused .noSuchPart
  | _ => misused .wrongType

/-- An output folder as seen from the folder of the settings file. -/
def resolveOutput (file : FilePath) (table : Table Value) : Outcome (Table Value) :=
  match table.get? "output_dir" with
  | none => .ok table
  | some v => do
    let p ← folderOf v
    pure (table.put "output_dir" (.str (file.parent.join p).text))

/-- The configuration of a settings file and the environment. -/
def load (fs : FileStore) (asked root : Option FilePath) (environ : Table String) :
    Outcome Configuration := do
  let root := root.getD ⟨"", []⟩
  if root.isBarred then misused root.barring
  let root := root.absolute fs.cwd
  let file ← locate fs root asked
  let table ← match file with
    | none => pure []
    | some p => do
      let v ← readFile fs p
      let table ← tableOf p.text v
      resolveOutput p table
  ofTable (Table.update table (ofEnvironment environ))

end Configuration

end ClientForge
