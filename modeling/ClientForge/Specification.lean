import ClientForge.Failure
import ClientForge.Log
import ClientForge.Model.Action
import ClientForge.Naming.Word
import ClientForge.Ordered
import ClientForge.TypeExpr.Node

/-!
# Specifications

A specification is read off a document: its title, its declared types and traits,
which stay raw, and its resource tree, flattened into actions. Resources are the keys
that start with a slash, at any depth, and their paths are put together along the
way; the methods of a resource are the keys that name one in any case of letters.
Actions come in the order of the document, a resource's own methods and its
subresources as they are written.
-/

namespace ClientForge

open ClientForge.Value

/-- The declarations and actions of a document. -/
structure Specification where
  title : String
  types : Table Value
  traits : Table Value
  actions : List Action
  baseUri : Value
  version : Option String
  deriving Inhabited

namespace Specification

/-- The declarations of one entry of a list of declarations. -/
def entryDeclarations (fail : SpecificationFault → Failure) (section_ : String) :
    Value → Outcome (List (String × Value))
  | .map es => do
    needWritable (es.map (·.1))
    pure (es.map fun e => (e.1.text, e.2))
  | v => do
    needWritable [v]
    throw (fail (.badEntry section_ v))

/-- The declarations of a section: a mapping, or a list of mappings. -/
def declarations (fail : SpecificationFault → Failure) (section_ : String) (node : Value) :
    Outcome (Table Value) :=
  match node with
  | .null => .ok []
  | .map es => do
    needWritable (es.map (·.1))
    pure (Table.ofList (es.map fun e => (e.1.text, e.2)))
  | .list entries => do
    let all ← entries.mapM (entryDeclarations fail section_)
    pure (Table.ofList all.flatten)
  | _ => .error (fail (.sectionNotMapping section_))

/-- The names of the traits in one entry of a list of applications. -/
def appliedNames : Value → List String
  | .str s => [s]
  | .map es => es.map (·.1.text)
  | _ => []

/-- The keys that stand for names in one entry of a list of applications. -/
def appliedKeys : Value → List Value
  | .map es => es.map (·.1)
  | _ => []

/-- The names of the traits in a list of applications. -/
def allAppliedNames (items : List Value) : Outcome (List String) := do
  needWritable (items.flatMap appliedKeys)
  pure (items.flatMap appliedNames)

/-- The names of the traits that a node applies. -/
def traitNames : Value → Outcome (List String)
  | .null => .ok []
  | .str s => .ok [s]
  | .list items => allAppliedNames items
  | .tuple items => allAppliedNames items
  | .set items => allAppliedNames items
  | .map es => .ok (es.flatMap fun e => appliedNames e.1)
  | .bytes _ => .ok []
  | _ => misused .wrongType

def filterSuffix : String := "Filter"

/-- Whether a trait becomes a type by its name. -/
def isFilterTrait (name : String) : Bool :=
  Text.endsWith name filterSuffix && name != filterSuffix

/-- The body under its preferred media type, if it is given by media types. -/
def preferredBody (body : Value) : Value :=
  match body with
  | .map es =>
    let isMedia := fun (e : Value × Value) => (e.1.text?).any fun k => k.toList.contains '/'
    match es.find? isMedia with
    | some first => ((Entries.text? "application/json" es).getD first.2)
    | none => body
  | _ => body

/-- The type of a body, if it has one. -/
def bodyType (body : Value) : Option Reference :=
  if body.isNull then none else (TypeExpr.ofNode (preferredBody body)).1

/-- Whether a response has a body. -/
def hasBody (response : Value) : Bool :=
  match response.field? "body" with
  | some body => !body.isNull
  | none => false

/-- Responses in the order of their codes. -/
def byCode (es : Entries) : Entries :=
  sortBy (fun a b => Text.codeLess a.1.text.toList b.1.text.toList) es

def isSuccess (code : String) : Bool := Text.startsWith code "2"

/-- The type of the first successful response with a body. -/
def responseType (responses : Value) : Option Reference :=
  match responses with
  | .map es =>
    match (byCode es).find? fun e => isSuccess e.1.text && hasBody e.2 with
    | some e => bodyType (e.2.field "body")
    | none => none
  | _ => none

/-- The codes of responses. -/
def responseCodes : Value → List Value
  | .map es => es.map (·.1)
  | _ => []

/-- A description without blanks at its end. -/
def actionDescription (v : Value) : Option String :=
  if v.isNull then none else some (Text.stripEnd v.text)

/-- What all actions of a document share. -/
structure Setting where
  client : String
  traits : Table Value
  source : Option String

/-- The filter that stands for the request of an action without a body. -/
def traitRequest (s : Setting) (applied : List String) : Option Reference :=
  (applied.find? fun name => s.traits.has name && isFilterTrait name).map .named

/-- The action of a method node. -/
def action (s : Setting) (path : String) (method : Method) (node : Value)
    (inherited : List String) : Outcome Action := do
  let body := bodyType (node.field "body")
  let request ← match body with
    | some r => pure (some r)
    | none => do
      let own ← traitNames (node.field "is")
      pure (traitRequest s (own ++ inherited))
  needWritable (node.field "description" :: responseCodes (node.field "responses"))
  pure {
    client := s.client
    method
    path
    description := actionDescription (node.field "description")
    displayName := node.field "displayName"
    requestType := request
    responseType := responseType (node.field "responses") }

/-- The method that a key names in any case of letters. -/
def methodOfKey? (key : String) : Option Method :=
  Method.ofName? (String.ofList (key.toList.map Naming.capital))

/-- Whether a key is that of a resource. -/
def isResourceKey (key : String) : Bool := Text.startsWith key "/"

/-- The action of a method key. -/
def methodAction (s : Setting) (path key : String) (method : Method) (node : Value)
    (inherited : List String) : Outcome (List Action) :=
  if node.isNull || node.isMap then do
    let a ← action s path method node inherited
    pure [a]
  else .error (.specification (.methodNotMapping key path) s.source)

mutual

/-- The actions of a resource and of all below it. -/
def resourceActions (s : Setting) (path : String) : Value → Outcome (List Action)
  | .map es => do
    let inherited ← traitNames ((Entries.text? "is" es).getD .null)
    entryActions s path inherited es
  | _ => .ok []
termination_by structural v => v

/-- The actions of the entries of a resource. -/
def entryActions (s : Setting) (path : String) (inherited : List String) :
    List (Value × Value) → Outcome (List Action)
  | [] => .ok []
  | e :: rest => do
    let here ← oneEntry s path inherited e
    let more ← entryActions s path inherited rest
    pure (here ++ more)
termination_by structural es => es

/-- The actions of one entry: a subresource, a method, or nothing. -/
def oneEntry (s : Setting) (path : String) (inherited : List String) :
    Value × Value → Outcome (List Action)
  | (.str key, node) =>
    if isResourceKey key then resourceActions s (path ++ key) node
    else
      match methodOfKey? key with
      | some method => methodAction s path key method node inherited
      | none => .ok []
  | _ => .ok []
termination_by structural e => e

end

/-- The actions of the resources among the entries of a document. -/
def documentActions (s : Setting) : List (Value × Value) → Outcome (List Action)
  | [] => .ok []
  | (.str key, node) :: rest => do
    let here ← if isResourceKey key then resourceActions s key node else .ok []
    let more ← documentActions s rest
    pure (here ++ more)
  | _ :: rest => documentActions s rest

/-- The grouping name that a title gives: its words, each with a capital. -/
def groupingOf (title : String) : String :=
  let runs := Naming.runs title.toList
  if runs.isEmpty then "Api" else String.ofList (runs.flatMap Naming.capitalized)

/-- The specification that a document gives. Actions are grouped under the client name,
or under a name made from the title. -/
def ofDocument (document : Value) (client : Option String) (source : Option String) :
    Outcome Specification :=
  let fail := fun fault => Failure.specification fault source
  match document with
  | .map es => do
    let title ← written (((Entries.text? "title" es).getD .null).orElse (.str "Api"))
    let types ← declarations fail "types" (document.field "types")
    let traits ← declarations fail "traits" (document.field "traits")
    let grouping := match client with
      | some name => if name == "" then groupingOf title else name
      | none => groupingOf title
    let actions ← documentActions ⟨grouping, traits, source⟩ es
    let version := document.field "version"
    needWritable [version]
    pure {
      title
      types
      traits
      actions
      baseUri := document.field "baseUri"
      version := if version.isNull then none else some version.text }
  | _ => .error (fail .rootNotMapping)

/-- The record of a specification that was read. -/
def record (s : Specification) : Record :=
  ⟨.debug, .source,
    "Parsed specification " ++ Text.Quoted.text s.title ++ ": " ++ toString s.types.length ++
      " types, " ++ toString s.traits.length ++ " traits, " ++ toString s.actions.length ++
      " actions"⟩

end Specification

end ClientForge
