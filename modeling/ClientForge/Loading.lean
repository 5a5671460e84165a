import ClientForge.FileStore
import ClientForge.Log
import ClientForge.Specification
import ClientForge.WebAddress
import ClientForge.Yaml.Document

/-!
# Loading specifications

A specification lies in a file or on the web, and its parts may lie in further
documents, each named as seen from the document that includes it. A document whose name
ends like that of a structured one is read as such; any other is taken as text. What
cannot be read or is malformed is reported with its own location, however deep it lies.
-/

namespace ClientForge

/-- What a request for an address brings. -/
structure Page where
  status : Nat
  text : String
  deriving DecidableEq, Repr, Inhabited

/-- The pages that can be fetched, under their addresses. -/
abbrev Web := Table Page

/-- A computation that leaves records whether or not it fails. -/
abbrev Logged := ExceptT Failure (StateM (List Record))

/-- Leave a record. -/
def Logged.tell (r : Record) : Logged Unit := modify (· ++ [r])

namespace Loading

open ClientForge.Text

/-- Where documents lie. -/
structure Shelf where
  store : FileStore
  web : Web
  deriving Inhabited

/-- The endings of the names of structured documents. -/
def structuredSuffixes : List String := [".raml", ".yaml", ".yml", ".json"]

/-- Whether a document is structured; what follows a question mark is no part of its
name. -/
def isStructured (location : String) : Bool :=
  let name := String.ofList (location.toList.takeWhile (· != '?'))
  let suffix := (FilePath.ofText name).suffix
  structuredSuffixes.contains (String.ofList (suffix.toList.map Char.toLower))

/-- A reference as seen from the document at a location. -/
def resolve (base reference : String) : Outcome String :=
  if WebAddress.isFetchable reference then .ok reference
  else if WebAddress.isFetchable base then
    match WebAddress.join? base reference with
    | some s => .ok s
    | none => misused .badValue
  else .ok ((FilePath.ofText base).parent.child reference).text

/-- The ends of lines as line feeds. -/
def plainLineEnds : List Char → List Char
  | '\r' :: '\n' :: rest => '\n' :: plainLineEnds rest
  | c :: rest => (if c == '\r' then '\n' else c) :: plainLineEnds rest
  | [] => []

/-- The text of some bytes, with its ends of lines as line feeds. -/
def decode (content : ByteArray) : Outcome String :=
  match String.fromUTF8? content with
  | some s => .ok (ofCharacters (String.ofList (plainLineEnds s.toList)))
  | none => misused .undecodable

/-- The text of the file at a location. -/
def fileText (store : FileStore) (location : String) : Outcome String :=
  match store.read (FilePath.ofText location) with
  | .ok content => decode content
  | .error f =>
    match f.error.misuse? with
    | some cause => misused cause
    | none => .error (.specification (.notRead location f.text) (some location))

/-- Whether a request was answered with what was asked for. -/
def Page.isSuccess (p : Page) : Bool := 200 ≤ p.status && p.status < 300

/-- The text of the page at an address. -/
def pageText (web : Web) (location : String) : Outcome String :=
  match web.get? location with
  | some p =>
    if Page.isSuccess p then .ok p.text
    else .error (.specification (.notFetched location) (some location))
  | none => .error (.specification (.notFetched location) (some location))

def ofOutcome {α : Type} (x : Outcome α) : Logged α := ExceptT.mk (pure x)

/-- The text of the document at a location. -/
def text (shelf : Shelf) (location : String) : Logged String :=
  if WebAddress.isFetchable location then do
    Logged.tell ⟨.debug, .source, "Fetching specification document " ++ location⟩
    ofOutcome (pageText shelf.web location)
  else ofOutcome (fileText shelf.store location)

/-- The failure of the document at a location. -/
def failureOf (location : String) : Yaml.Fault → Failure
  | .malformed => .specification .malformed (some location)
  | .misuse cause => .misuse cause

/-- The value of the structured document at a location, with documents nested at most so
deep. -/
def value (shelf : Shelf) : Nat → String → Logged Value
  | 0, _ => throw (.misuse .endless)
  | depth + 1, location => do
    let s ← text shelf location
    (Yaml.read s).run
      (fun reference => do
        let target ← ofOutcome (resolve location reference)
        if isStructured target then value shelf depth target
        else do
          let s ← text shelf target
          pure (.str s))
      (fun fault => throw (failureOf location fault))

/-- A depth that no chain of different documents exceeds. -/
def Shelf.depth (shelf : Shelf) : Nat := shelf.store.nodes.length + shelf.web.length + 1

/-- The specification at a location, its actions grouped under a client if one is
named. -/
def specification (shelf : Shelf) (location : String) (client : Option String) :
    Logged Specification := do
  let document ← value shelf shelf.depth location
  let s ← ofOutcome (Specification.ofDocument document client (some location))
  Logged.tell s.record
  pure s

end Loading

end ClientForge
