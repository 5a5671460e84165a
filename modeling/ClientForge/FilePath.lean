import ClientForge.Text.Blank
import ClientForge.Text.CodePoint
import ClientForge.Text.Quoted

/-!
# File paths

A path is absolute or relative and has parts. Empty parts and single dots are dropped
when a path is read; a double dot stays, since only the store knows what it leads to.
Joining to an absolute path gives that path.
-/

namespace ClientForge

/-- A path: what stands before the parts, and the parts. -/
structure FilePath where
  root : String
  parts : List String
  deriving DecidableEq, Repr, Inhabited

namespace FilePath

/-- The root of a text: none, one slash, or exactly two. -/
def rootOf : List Char → String
  | '/' :: '/' :: '/' :: _ => "/"
  | '/' :: '/' :: _ => "//"
  | '/' :: _ => "/"
  | _ => ""

/-- Whether a part is kept. -/
def isPart (part : String) : Bool := part != "" && part != "."

/-- The path of a text. -/
def ofText (s : String) : FilePath := ⟨rootOf s.toList, (Text.split '/' s).filter isPart⟩

/-- The text of a path; the empty path is a dot. -/
def text (p : FilePath) : String :=
  let s := p.root ++ "/".intercalate p.parts
  if s == "" then "." else s

def isAbsolute (p : FilePath) : Bool := p.root != ""

/-- Whether a code point can stand in a name: a character, or a half that stands for a byte
of a name that is no text. -/
def isNameCode (n : Nat) : Bool := n.isValidChar || (0xDC80 ≤ n && n < 0xDD00)

/-- Whether a part holds a code point that no name can be encoded with. -/
def holdsStray (part : String) : Bool := (Text.codes part.toList).any (!isNameCode ·)

/-- Whether no store has a part in a name, for it cannot be encoded or holds the null
character. -/
def isBarredPart (part : String) : Bool := holdsStray part || part.toList.contains '\x00'

/-- Whether a path has a part that no store has in a name. -/
def isBarred (p : FilePath) : Bool := p.parts.any isBarredPart

/-- The second path as seen from the first. -/
def join (p q : FilePath) : FilePath := if q.isAbsolute then q else ⟨p.root, p.parts ++ q.parts⟩

/-- A path below another, given as text. -/
def child (p : FilePath) (s : String) : FilePath := p.join (ofText s)

/-- The path without its last part. -/
def parent (p : FilePath) : FilePath := ⟨p.root, p.parts.dropLast⟩

/-- The last part. -/
def name (p : FilePath) : String := p.parts.getLast?.getD ""

/-- The last part from its last dot on, if the dot is neither its first nor its last
character. -/
def suffix (p : FilePath) : String :=
  let reversed := p.name.toList.reverse
  let ending := reversed.takeWhile (· != '.')
  match reversed.drop ending.length with
  | '.' :: _ :: _ => if ending.isEmpty then "" else String.ofList ('.' :: ending.reverse)
  | _ => ""

/-- The path as messages about file access quote it. -/
def quoted (p : FilePath) : String := Text.Quoted.text p.text

/-- The path as messages about whole trees quote it. -/
def quotedTree (p : FilePath) : String := "PosixPath(" ++ p.quoted ++ ")"

/-- Parts with every double dot taken together with the part before it. -/
def normalParts (parts : List String) : List String :=
  parts.foldl (fun acc part => if part == ".." then acc.dropLast else acc ++ [part]) []

/-- The absolute form of a path as seen from a folder given by its parts. -/
def absolute (cwd : List String) (p : FilePath) : FilePath :=
  if p.isAbsolute then ⟨p.root, normalParts p.parts⟩ else ⟨"/", normalParts (cwd ++ p.parts)⟩

end FilePath

end ClientForge
