import ClientForge.CommandLine.Session

/-!
# The program

Runs a session on the files of the disk. The store that the session sees holds what it
can ask for: the settings files, the output folder as far as it exists, and the
documents. A document is fetched when it is found missing, so that nothing has to be
searched for in advance. Pages of the web are not fetched. A previous output folder is
represented by one file; if the session clears it, so does the program. At the end the
files that the session wrote are written to the disk.
-/

namespace ClientForge.Program

open ClientForge.CommandLine

/-- What is at a path of the disk. -/
def find (path : String) : IO (Option Node) := do
  let path := Text.characters path
  try
    pure (some (.file (← IO.FS.readBinFile path)))
  catch
    | .noFileOrDirectory .. => pure none
    | _ => do
      try
        discard (IO.FS.realPath path)
        pure (some .folder)
      catch _ => pure none

/-- Put what is at a path of the disk into a store, with the folders above it. -/
def fetch (store : FileStore) (p : FilePath) : IO FileStore := do
  match ← find p.text with
  | none => pure store
  | some node =>
    let store := (store.ensureFolders p.parent).2
    match store.locate p with
    | .ok at_ => pure (store.put at_ node)
    | .error _ => pure store

/-- Put several paths into a store. -/
def fetchAll (store : FileStore) (paths : List FilePath) : IO FileStore := paths.foldlM fetch store

/-- A path and all paths above it, the outermost first. -/
def withParents (p : FilePath) : List FilePath :=
  (List.range (p.parts.length + 1)).map fun n => ⟨p.root, p.parts.take n⟩

/-- An empty store that starts from the current folder. -/
def startingStore : IO FileStore := do
  let here := (FilePath.ofText (Text.ofCharacters (toString (← IO.currentDir)))).parts
  pure ⟨(List.range here.length).map fun n => (here.take (n + 1), .folder), here⟩

/-- The variables of the environment that have a meaning. -/
def environment : IO (Table String) := do
  let names := Configuration.names.map fun n =>
    Configuration.environmentPrefix ++ String.ofList (n.toList.map Naming.capital)
  names.filterMapM fun n => do pure ((← IO.getEnv n).map fun s => (n, Text.ofCharacters s))

/-- The document that a session missed. -/
def missingDocument? (r : Request) (s : Surroundings) : Option String :=
  match r with
  | .generate o =>
    match o.configuration s with
    | .error _ => none
    | .ok c =>
      let run := Loading.specification ⟨s.store, s.web⟩ o.location (Generation.clientName? c)
      match (run.run.run []).1 with
      | .error (.specification (.notRead location _) _) => some location
      | _ => none
  | _ => none

/-- Fetch the documents that a session misses, one after another, until the disk does not
have one either. -/
def fetchDocuments (r : Request) : Nat → Surroundings → IO Surroundings
  | 0, s => pure s
  | fuel + 1, s => do
    match missingDocument? r s with
    | none => pure s
    | some location =>
      let p := FilePath.ofText location
      let before := s.store.nodes.length
      let store ← fetch s.store p
      if store.nodes.length = before then pure s else fetchDocuments r fuel { s with store }

/-- The most documents that a specification is made of. -/
def maxDocuments : Nat := 10000

/-- The settings files that an order may use. -/
def settingsFiles (o : Order) : List FilePath :=
  match o.filled? "--config" with
  | some file => [.ofText file]
  | none => Configuration.fileNames.map FilePath.ofText

/-- The file that represents the content of a previous output folder. -/
def standIn : String := ".previous"

/-- Represent the content of a folder. -/
def represent (target : FilePath) (store : FileStore) : FileStore :=
  match store.at? target, store.locate target with
  | .ok (some .folder), .ok at_ => store.put (at_ ++ [standIn]) (.file .empty)
  | _, _ => store

/-- What the disk and the environment have for a request. -/
def surroundings (r : Request) : IO Surroundings := do
  let s : Surroundings := ⟨← startingStore, [], ← environment⟩
  match r with
  | .generate o => do
    let s := { s with store := ← fetchAll s.store (settingsFiles o) }
    let s ← fetchDocuments r maxDocuments s
    match o.configuration s >>= Configuration.targetDir with
    | .error _ => pure s
    | .ok target =>
      let store ← fetchAll s.store (withParents target)
      pure { s with store := represent target store }
  | _ => pure s

/-- The path of a location on the disk. -/
def pathOf (at_ : Location) : String := Text.characters ("/" ++ "/".intercalate at_)

/-- Whether two files hold the same. -/
def sameFile (a b : Location × ByteArray) : Bool := a.1 == b.1 && a.2.data == b.2.data

/-- Clear the folders whose content a session took away. -/
def clearFolders (before after : FileStore) : IO Unit := do
  for (at_, _) in before.files do
    if at_.getLast? == some standIn && (after.node? at_).isNone then
      IO.FS.removeDirAll (pathOf at_.dropLast)

/-- Write the files that a session wrote, each by way of a neighbour. -/
def writeFiles (before after : FileStore) : IO Unit := do
  for file in after.files do
    if !before.files.any (sameFile file) then
      let path := pathOf file.1
      IO.FS.createDirAll (pathOf file.1.dropLast)
      IO.FS.writeBinFile (path ++ ".tmp") file.2
      IO.FS.rename (path ++ ".tmp") path

/-- The code with which the program ends. -/
def exitCode : Ending → UInt32
  | .returned code => UInt32.ofNat code
  | .left code => UInt32.ofNat code
  | .gaveUp _ => 1

/-- Run one call of the program on the disk. -/
def run (args : List String) : IO UInt32 := do
  let r := Request.ofArguments (args.map Text.ofCharacters)
  let s ← surroundings r
  let ended := r.run s
  clearFolders s.store ended.store
  writeFiles s.store ended.store
  IO.print (Text.Quoted.shown ended.shown)
  IO.eprint (Text.Quoted.shown ended.complaints)
  pure (exitCode ended.ending)

end ClientForge.Program

def main (args : List String) : IO UInt32 := ClientForge.Program.run args
