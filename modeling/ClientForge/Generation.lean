import ClientForge.Configuration
import ClientForge.Loading
import ClientForge.Model.Fingerprint

/-!
# Generation

One run makes the source tree of a specification. What can fail without the store is
done first: definitions are built, the emitter is made, every file is rendered. Only
then the previous tree is cleared and the new one is written, file by file. A run tells
what it built and wrote and leaves records on the way.
-/

namespace ClientForge

/-- The store that a run changes and the records that it leaves. -/
structure Workspace where
  store : FileStore
  records : List Record
  deriving Inhabited

/-- A step of a run. What it did to the store stays done if it fails. -/
abbrev Run := ExceptT Failure (StateM Workspace)

namespace Run

def ofOutcome {α : Type} (x : Outcome α) : Run α := ExceptT.mk (pure x)

def tell (rs : List Record) : Run Unit :=
  modify fun w => { w with records := w.records ++ rs }

/-- A computation that leaves records, as a step of a run. -/
def ofLogged {α : Type} (x : Logged α) : Run α := do
  let (outcome, records) := x.run.run []
  tell records
  ofOutcome outcome

/-- A change of the store, with the failure that stands for a failed access. -/
def change {α : Type} (f : FileStore → FileStore.Change α) (fail : AccessFault → Failure) :
    Run α := do
  let w ← get
  let (outcome, store) := f w.store
  set { w with store }
  match outcome with
  | .ok x => pure x
  | .error fault => throw (fail fault)

end Run

/-- What a run produced. -/
structure Product where
  definitions : List Definition
  actions : List Action
  written : List FilePath
  fingerprint : String
  deriving Inhabited

namespace Generation

open ClientForge.Emission

/-- What a run is about to write. -/
structure Plan where
  language : Language
  definitions : List Definition
  actions : List Action
  tree : Tree
  target : FilePath
  deriving Inhabited

/-- The registry that a run uses: the given one, unless it is empty. -/
def registryFor (given : Option Registry) : Registry :=
  match given with
  | some r => if r.entries.isEmpty then .standard else r
  | none => .standard

/-- The given registry once a run has started: frozen if the run uses it. -/
def registryAfter (given : Registry) : Registry :=
  if given.entries.isEmpty then given else given.freeze

/-- The name that groups actions, if the settings give one as a text. -/
def clientName? (c : Configuration) : Option String :=
  if c.clientName.isTruthy then some c.clientName.text else none

/-- Whether the settings leave the grouping of actions to a text. -/
def namesClients (c : Configuration) : Bool := !c.clientName.isTruthy || c.clientName.text?.isSome

/-- The settings of the emitter. The base address of the document stands in for one that
is not set. -/
def emitterSettings (c : Configuration) (s : Specification) : Settings where
  vendor := c.vendorPrefix
  apiName := c.apiName
  package := c.packageName
  common := c.commonPackage
  baseUrl := c.baseUrl.orElse s.baseUri
  version := c.version

/-- The emitter of a configuration. -/
def emitter (c : Configuration) (s : Specification) : Outcome Emitter := do
  let e ← Emitter.ofSettings c.language (emitterSettings c s)
  pure { e with namesClients := namesClients c }

/-- All that a run does without the store. -/
def plan (c : Configuration) (r : Registry) (s : Specification) : Outcome Plan := do
  let definitions ← Catalog.definitions r c.policy s.types s.traits
  let e ← emitter c s
  let tree ← render e definitions s.actions
  let target ← c.targetDir
  pure ⟨c.language, definitions, s.actions, tree, target⟩

/-- The failure to write a file. -/
def writeFailure (l : Language) (target : FilePath) (f : AccessFault) : Failure :=
  match f.error.misuse? with
  | some cause => .misuse cause
  | none => .emission (.notWritten l target.text f.text)

/-- Write one file. -/
def writeFile (l : Language) (target : FilePath) (file : SourceFile) : Run Unit :=
  Run.change (fun store => store.write target (Text.encode? file.text)) (writeFailure l target)

/-- Write files below a folder, one after another. -/
def writeFiles (l : Language) (root : FilePath) : Tree → Run (List FilePath)
  | [] => pure []
  | (path, file) :: rest => do
    let target := root.child path
    writeFile l target file
    let more ← writeFiles l root rest
    pure (target :: more)

/-- Write a tree below a folder. What else is there stays. -/
def writeTree (l : Language) (root : FilePath) (tree : Tree) : Run (List FilePath) := do
  let written ← writeFiles l root tree
  Run.tell [⟨.info, .emission,
    "Wrote " ++ toString written.length ++ " " ++ l.name ++ " files to " ++ root.text⟩]
  pure written

/-- Clear a folder if there is one. -/
def clear (l : Language) (target : FilePath) : Run Unit := do
  if ← Run.ofOutcome (Configuration.pathExists (← get).store target) then
    Run.tell [⟨.info, .generation, "Removing previous output " ++ target.text⟩]
    Run.change (fun store => store.removeTree target) fun f =>
      .emission (.notCleared l target.text f.text)

/-- Put a planned tree into the place of the previous one. -/
def carryOut (p : Plan) : Run Product := do
  clear p.language p.target
  let written ← writeTree p.language p.target p.tree
  let fingerprint ← Run.ofOutcome (buildFingerprint p.definitions p.actions)
  pure ⟨p.definitions, p.actions, written, fingerprint⟩

/-- Generate from a specification. -/
def ofSpecification (c : Configuration) (given : Option Registry) (s : Specification) :
    Run Product := do
  let r := registryFor given
  Run.tell (Catalog.records r c.policy s.types s.traits)
  let p ← Run.ofOutcome (plan c r s)
  carryOut p

/-- Generate from the specification at a location. -/
def ofLocation (c : Configuration) (given : Option Registry) (web : Web) (location : String) :
    Run Product := do
  let store := (← get).store
  let s ← Run.ofLogged (Loading.specification ⟨store, web⟩ location (clientName? c))
  ofSpecification c given s

/-- Render definitions and actions and write them below a folder. -/
def emit (e : Emitter) (definitions : List Definition) (actions : List Action) (root : FilePath) :
    Run (List FilePath) := do
  let tree ← Run.ofOutcome (render e definitions actions)
  writeTree e.language root tree

end Generation

end ClientForge
