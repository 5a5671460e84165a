import ClientForge.Failure
import ClientForge.FilePath
import ClientForge.Text.Hex

/-!
# The file store

Files and folders under their locations, and the folder that relative paths start
from. There is nothing else in a store, in particular no link from one place to another.
So a path is walked part by part from folder to folder, a double dot leading back to the
folder above. A file is written by way of a temporary neighbour that is moved over the
target, so that a failed write leaves the target as it was and no neighbour behind; folders
on the way are made first. Each access that fails says why.
-/

namespace ClientForge

/-- The names from the root of the store down to a file or a folder. -/
abbrev Location := List String

/-- A file with its content, or a folder. -/
inductive Node
  | file (content : ByteArray)
  | folder

instance : Inhabited Node := ⟨.folder⟩

namespace Node

def isFolder : Node → Bool
  | folder => true
  | file _ => false

def content? : Node → Option ByteArray
  | file bytes => some bytes
  | folder => none

end Node

/-- Why no store can have a path: it cannot be encoded, or it holds the null character. -/
def FilePath.barring (p : FilePath) : Misuse :=
  if p.parts.any holdsStray then .unencodable else .badValue

/-- Why an access failed. -/
inductive AccessError
  | missing
  | exists
  | notFolder
  | isFolder
  | invalid
  | nameTooLong
  | notEmpty
  /-- A path or a content that no store can have. -/
  | misuse (cause : Misuse)
  deriving DecidableEq, Repr, Inhabited

namespace AccessError

/-- The number of an error. -/
def number : AccessError → Nat
  | missing => 2
  | «exists» => 17
  | notFolder => 20
  | isFolder => 21
  | invalid => 22
  | nameTooLong => 36
  | notEmpty => 39
  | misuse _ => 0

def phrase : AccessError → String
  | missing => "No such file or directory"
  | «exists» => "File exists"
  | notFolder => "Not a directory"
  | isFolder => "Is a directory"
  | invalid => "Invalid argument"
  | nameTooLong => "File name too long"
  | notEmpty => "Directory not empty"
  | misuse _ => "Not a value for a store"

/-- The misuse that an error is, if the store is not what failed. -/
def misuse? : AccessError → Option Misuse
  | misuse cause => some cause
  | _ => none

end AccessError

/-- A failed access and what it was about. -/
structure AccessFault where
  error : AccessError
  subject : String
  deriving DecidableEq, Repr, Inhabited

/-- The message of a failed access. -/
def AccessFault.text (f : AccessFault) : String :=
  "[Errno " ++ toString f.error.number ++ "] " ++ f.error.phrase ++ ": " ++ f.subject

/-- Files and folders, and the folder that relative paths start from. -/
structure FileStore where
  nodes : List (Location × Node)
  cwd : Location
  deriving Inhabited

namespace FileStore

/-- What is at a location. The root is a folder. -/
def node? (fs : FileStore) (at_ : Location) : Option Node :=
  if at_.isEmpty then some .folder else (fs.nodes.find? (·.1 == at_)).map (·.2)

/-- Put a node at a location in the place of what is there. -/
def put (at_ : Location) (node : Node) (fs : FileStore) : FileStore :=
  if fs.nodes.any (·.1 == at_) then
    { fs with nodes := fs.nodes.map fun e => if e.1 == at_ then (at_, node) else e }
  else { fs with nodes := fs.nodes ++ [(at_, node)] }

/-- Take away what is at a location. -/
def erase (at_ : Location) (fs : FileStore) : FileStore :=
  { fs with nodes := fs.nodes.filter (·.1 != at_) }

/-- Take away everything strictly below a location. -/
def eraseBelow (at_ : Location) (fs : FileStore) : FileStore :=
  { fs with nodes := fs.nodes.filter fun e => !(at_.isPrefixOf e.1 && e.1 != at_) }

/-- The most bytes that a name may have. -/
def maxNameBytes : Nat := 255

def isTooLong (name : String) : Bool := maxNameBytes < name.utf8ByteSize

/-- The most bytes that the text of a path may have. -/
def maxPathBytes : Nat := 4095

/-- Whether a path is too long to be looked for at all. -/
def isPathTooLong (p : FilePath) : Bool := maxPathBytes < p.text.utf8ByteSize

/-- One step from a folder. -/
def descend (at_ : Location) (part : String) : Location :=
  if part == ".." then at_.dropLast else at_ ++ [part]

/-- Walk from a location along some parts. Every location that is left must be a
folder; the last one need not exist. -/
def walk (fs : FileStore) : Location → List String → Except AccessError Location
  | at_, [] => .ok at_
  | at_, part :: rest =>
    match fs.node? at_ with
    | none => .error .missing
    | some (.file _) => .error .notFolder
    | some .folder =>
      if isTooLong part then .error .nameTooLong else walk fs (descend at_ part) rest

/-- The location below another that some parts name, if all of them are plain names and
the folder that would hold the last one is there. A folder stands only in folders, so
nothing on the way has to be looked at. -/
def direct? (fs : FileStore) (start : Location) (parts : List String) : Option Location :=
  let at_ := start ++ parts
  match parts with
  | [] => none
  | _ =>
    if parts.all (fun part => part != ".." && !isTooLong part) then
      match fs.node? at_.dropLast with
      | some .folder => some at_
      | _ => none
    else none

/-- The location that a path leads to. -/
def locate (fs : FileStore) (p : FilePath) : Except AccessError Location :=
  if p.isBarred then .error (.misuse p.barring)
  else if isPathTooLong p then .error .nameTooLong
  else
    let start := if p.isAbsolute then [] else fs.cwd
    match fs.direct? start p.parts with
    | some at_ => .ok at_
    | none => walk fs start p.parts

/-- What a path leads to. -/
def at? (fs : FileStore) (p : FilePath) : Except AccessError (Option Node) :=
  (fs.locate p).map fs.node?

/-- Whether a path leads to a folder. -/
def hasFolder (fs : FileStore) (p : FilePath) : Bool :=
  match fs.at? p with
  | .ok (some n) => n.isFolder
  | _ => false

/-- Whether a path leads to anything. Only a name that no store can have is an error. -/
def has (fs : FileStore) (p : FilePath) : Except AccessError Bool :=
  match fs.at? p with
  | .ok n => .ok n.isSome
  | .error .nameTooLong => .error .nameTooLong
  | .error _ => .ok false

/-- The content of the file that a path leads to. -/
def read (fs : FileStore) (p : FilePath) : Except AccessFault ByteArray :=
  match fs.at? p with
  | .ok (some (.file bytes)) => .ok bytes
  | .ok (some .folder) => .error ⟨.isFolder, p.quoted⟩
  | .ok none => .error ⟨.missing, p.quoted⟩
  | .error e => .error ⟨e, p.quoted⟩

/-- Make one folder. -/
def makeFolder (fs : FileStore) (p : FilePath) : Except AccessError FileStore := do
  let at_ ← fs.locate p
  if (fs.node? at_).isSome then .error .exists else pure (fs.put at_ .folder)

/-- The outcome of an attempt to change the store: what changed stays, whether or not
the attempt failed in the end. -/
abbrev Change (α : Type) := Except AccessFault α × FileStore

/-- Make one folder unless it is there. -/
def ensureFolder (fs : FileStore) (p : FilePath) : Change Unit :=
  match fs.makeFolder p with
  | .ok fs => (.ok (), fs)
  | .error e => if fs.hasFolder p then (.ok (), fs) else (.error ⟨e, p.quoted⟩, fs)

/-- Make a folder and the folders above it unless they are there, from the first `depth`
parts of a path on. -/
def ensureFoldersTo (root : String) (parts : List String) : Nat → FileStore → Change Unit
  | 0, fs => fs.ensureFolder ⟨root, []⟩
  | depth + 1, fs =>
    let p : FilePath := ⟨root, parts.take (depth + 1)⟩
    match fs.makeFolder p with
    | .error .missing =>
      match ensureFoldersTo root parts depth fs with
      | (.ok _, fs) => fs.ensureFolder p
      | (.error f, fs) => (.error f, fs)
    | _ => fs.ensureFolder p

/-- Make a folder and the folders above it unless they are there. -/
def ensureFolders (fs : FileStore) (p : FilePath) : Change Unit :=
  ensureFoldersTo p.root p.parts p.parts.length fs

/-- The name of a temporary neighbour of a file. -/
def temporaryName (name : String) (n : Nat) : String :=
  "." ++ name ++ "." ++ Text.padded 8 n ++ ".tmp"

/-- The first temporary name of some that is free in a folder. -/
def freshName (fs : FileStore) (folder : Location) (name : String) : Nat → Nat → String
  | 0, n => temporaryName name n
  | fuel + 1, n =>
    let candidate := temporaryName name n
    if (fs.node? (folder ++ [candidate])).isSome then freshName fs folder name fuel (n + 1)
    else candidate

/-- Write a file: make its folder, write a temporary neighbour, and move that over the
target. If moving fails the neighbour is taken away, and so it is if there are no bytes to
put into it. -/
def write (fs : FileStore) (p : FilePath) (content? : Option ByteArray) : Change Unit :=
  match fs.ensureFolders p.parent with
  | (.error f, fs) => (.error f, fs)
  | (.ok _, fs) =>
    match fs.locate p.parent with
    | .error e => (.error ⟨e, p.parent.quoted⟩, fs)
    | .ok folder =>
      let temporary := fs.freshName folder p.name (fs.nodes.length + 1) 0
      let neighbour := (p.parent.absolute fs.cwd).child temporary
      let shown := neighbour.quoted
      if isTooLong temporary || isPathTooLong neighbour then (.error ⟨.nameTooLong, shown⟩, fs)
      else
        match content? with
        | none => (.error ⟨.misuse .unencodable, shown⟩, fs)
        | some content =>
          let fs := fs.put (folder ++ [temporary]) (.file content)
          let target := folder ++ [p.name]
          match fs.node? target with
          | some .folder =>
            (.error ⟨.isFolder, shown ++ " -> " ++ p.quoted⟩, fs.erase (folder ++ [temporary]))
          | _ => (.ok (), (fs.put target (.file content)).erase (folder ++ [temporary]))

/-- Take away an empty folder by its path. -/
def removeFolder (fs : FileStore) (p : FilePath) : Change Unit :=
  match fs.locate p with
  | .error e => (.error ⟨e, p.quoted⟩, fs)
  | .ok at_ =>
    match p.parts.getLast? with
    | none => (.error ⟨.invalid, p.quoted⟩, fs)
    | some ".." => (.error ⟨.notEmpty, p.quoted⟩, fs)
    | some _ =>
      match fs.node? at_ with
      | none => (.error ⟨.missing, p.quoted⟩, fs)
      | some _ => (.ok (), fs.erase at_)

/-- Take away a folder with everything in it. -/
def removeTree (fs : FileStore) (p : FilePath) : Change Unit :=
  match fs.locate p with
  | .error e => (.error ⟨e, p.quoted⟩, fs)
  | .ok at_ =>
    match fs.node? at_ with
    | none => (.error ⟨.missing, p.quoted⟩, fs)
    | some (.file _) => (.error ⟨.notFolder, p.quotedTree⟩, fs)
    | some .folder => (fs.eraseBelow at_).removeFolder p

/-- The location of every file with its content. -/
def files (fs : FileStore) : List (Location × ByteArray) :=
  fs.nodes.filterMap fun e => e.2.content?.map (e.1, ·)

end FileStore

end ClientForge
