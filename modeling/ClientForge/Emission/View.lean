import ClientForge.Emission.Code
import ClientForge.Emission.Enumeration
import ClientForge.Emission.Path
import ClientForge.Ordered

/-!
# What a generated file says

The content of an entity and of a client before it is put into a language's form:
class names, base classes, imports, properties with their conversions, methods with
their arguments and replies. The imports of a file are the classes that its content
refers to, each once, in the order in which they come up.
-/

namespace ClientForge.Emission

open ClientForge.Text

/-- The lines of a description, blanks at its ends and at the ends of lines dropped. -/
def descriptionLines (description : Option String) : List String :=
  match description with
  | some s =>
    if s == "" then [] else (lines (trim s.toList)).map fun cs => String.ofList (trimEnd cs)
  | none => []

/-- The base of a class: a generated class, or one of the runtime library. -/
inductive BaseClass
  | generated (cls : String)
  | common (name : String)
  deriving DecidableEq, Repr, Inhabited

def BaseClass.name : BaseClass → String
  | generated cls => cls
  | common n => n

def BaseClass.isCommon : BaseClass → Bool
  | common _ => true
  | generated _ => false

/-- A property of an entity. -/
structure PropertyView where
  key : String
  getter : String
  setter : String
  variableName : String
  conversion : Conversion
  docType : String
  nullable : Bool
  description : List String
  deriving DecidableEq, Repr, Inhabited

/-- The items of a result. -/
structure ItemView where
  conversion : Conversion
  docType : String
  deriving DecidableEq, Repr, Inhabited

/-- An entity. -/
structure EntityView where
  className : String
  base : BaseClass
  imports : List String
  properties : List PropertyView
  description : List String
  cases : List EnumCase
  item : Option ItemView
  deriving DecidableEq, Repr, Inhabited

namespace EntityView

/-- Whether an entity uses the date helper. -/
def usesDate (v : EntityView) : Bool :=
  v.properties.any (·.conversion.usesDate) || v.item.any (·.conversion.usesDate)

end EntityView

/-- A class added to the imports of a file, once, and never to its own. -/
def remember (own cls : String) (imports : List String) : List String :=
  if cls == own || imports.contains cls then imports else imports ++ [cls]

/-- The base class of a definition. -/
def baseClass (d : Definition) : BaseClass :=
  match d.parentName? with
  | some parent => .generated (Naming.className parent)
  | none =>
    if d.kind = .result then .common "Result"
    else if d.isFilter && d.extendsBaseFilter then .common "Filter"
    else .common "Entity"

/-- The view of a property. -/
def propertyView (l : Language) (index : Index) (p : Property) : Outcome PropertyView := do
  let c ← conversion index p.reference
  let doc ← docType l index false p.reference
  pure {
    key := p.name
    getter := Naming.getter p.name p.reference
    setter := Naming.setter p.name
    variableName := Naming.variableName l p.name
    conversion := c
    docType := doc
    nullable := p.nullable
    description := descriptionLines p.description }

/-- The view of a result's items. -/
def itemView (l : Language) (index : Index) (d : Definition) : Outcome (Option ItemView) :=
  match d.kind, d.itemType with
  | .result, some r => do
    let c ← conversion index r
    let doc ← docType l index false r
    pure (some ⟨c, doc⟩)
  | _, _ => pure none

/-- The class that a value of a reference is wrapped in, if it is wrapped. -/
def wrappedClass? (r : Reference) (c : Conversion) : Option String :=
  if c.wraps then some (Naming.className r.element.name) else none

/-- The classes that an entity imports: its base, those of its properties, that of its
items. -/
def entityImports (d : Definition) (properties : List PropertyView) (item : Option ItemView) :
    List String :=
  let own := Naming.className d.name
  let parents := d.parentName?.toList.map Naming.className
  let members := (d.properties.zip properties).filterMap fun p =>
    wrappedClass? p.1.reference p.2.conversion
  let items := (d.itemType.toList.zip item.toList).filterMap fun p =>
    wrappedClass? p.1 p.2.conversion
  (parents ++ members ++ items).foldl (fun acc cls => remember own cls acc) []

/-- The view of a definition. -/
def entityView (l : Language) (index : Index) (d : Definition) : Outcome EntityView := do
  let properties ← d.properties.mapM (propertyView l index)
  let item ← itemView l index d
  pure {
    className := Naming.className d.name
    base := baseClass d
    imports := entityImports d properties item
    properties
    description := descriptionLines d.description
    cases := enumCases d.enumValues
    item }

/-- The body argument of a method. -/
structure BodyView where
  variableName : String
  docType : String
  conversion : Conversion
  cls : String
  deriving DecidableEq, Repr, Inhabited

/-- What a method makes of the response. -/
inductive Reply
  /-- The action declares no response. -/
  | nothing
  /-- The data as it is. -/
  | data
  | entity (cls : String)
  | entities (cls : String)
  /-- A result, which needs the key of its items. -/
  | result (cls : String) (itemsKey : Option String)
  deriving DecidableEq, Repr, Inhabited

namespace Reply

/-- The expression that a reply gives back, if it is not the data as it is. -/
def code? : Reply → Option Code
  | nothing => none
  | data => none
  | entity cls => some (.construct cls .data none)
  | entities cls => some (.mapped .data (.construct cls .item none) none)
  | result cls key => some (.construct cls .data key)

/-- Whether a reply constructs a result without knowing the key of its items. -/
def lacksKey : Reply → Bool
  | result _ none => true
  | _ => false

end Reply

/-- A method of a client. -/
structure MethodView where
  name : String
  method : Method
  path : String
  pathExpr : PathExpr
  description : List String
  parameters : List String
  body : Option BodyView
  reply : Reply
  replyDoc : Option String
  deriving DecidableEq, Repr, Inhabited

/-- The arguments of a method: path parameters in order, then the body. -/
def MethodView.arguments (m : MethodView) : List String :=
  m.parameters ++ m.body.toList.map (·.variableName)

/-- The view of a request body, under a variable that no parameter has. -/
def bodyView (l : Language) (index : Index) (parameters : List String) (r : Reference) :
    Outcome BodyView := do
  let plain := if r.kind = .type then Naming.variableName l r.name else "payload"
  let variableName := if parameters.contains plain then plain ++ "Body" else plain
  let doc ← docType l index true r
  let c ← conversion index r
  pure ⟨variableName, doc, c, elementClass r⟩

/-- The reply that a response type asks for. -/
def replyOf (index : Index) (r : Reference) : Outcome Reply := do
  let c ← conversion index r
  match c with
  | .entity cls =>
    let kind ← index.kindOf r.name
    pure (if kind = .result then .result cls ((index.get? r.name).bind (·.itemsKey))
      else .entity cls)
  | .entities cls => pure (.entities cls)
  | _ => pure .data

/-- The view of an action, under the name that its path or its display name gives. -/
def actionView (l : Language) (index : Index) (a : Action) : Outcome MethodView := do
  let parameters := a.pathParameters.map (Naming.variableName l)
  let body ← match a.requestType with
    | some r => (bodyView l index parameters r).map some
    | none => pure none
  let (reply, replyDoc) ← match a.responseType with
    | some r => do
      let reply ← replyOf index r
      let doc ← docType l index true r
      pure (reply, some doc)
    | none => pure (Reply.nothing, none)
  let name ← Naming.methodName a
  pure {
    name
    method := a.method
    path := a.path
    pathExpr := pathExpr l (pathParts l a.path)
    description := descriptionLines a.description
    parameters
    body
    reply
    replyDoc }

/-- The names of a client's methods so far, each with the number of times it was met. -/
abbrev Taken := Table Nat

/-- A name that tells a method from the earlier ones: a name that is taken gains the
parameters of the path, and a number if that is taken too. -/
def uniqueName (name : String) (pathParameters : List String) (taken : Taken) :
    String × Taken :=
  let candidate :=
    if taken.has name && !pathParameters.isEmpty then
      name ++ "By" ++ "And".intercalate (pathParameters.map Naming.pascal)
    else name
  match taken.get? candidate with
  | some n =>
    let numbered := candidate ++ toString (n + 1)
    let counted := taken.put candidate (n + 1)
    (numbered, if counted.has numbered then counted else counted.put numbered 1)
  | none => (candidate, taken.put candidate 1)

/-- The methods of a client, named apart in order. -/
def methodViews (l : Language) (index : Index) : Taken → List Action → Outcome (List MethodView)
  | _, [] => .ok []
  | taken, a :: rest => do
    let v ← actionView l index a
    let (name, taken) := uniqueName v.name a.pathParameters taken
    let more ← methodViews l index taken rest
    pure ({ v with name } :: more)

/-- A client. -/
structure ClientView where
  className : String
  imports : List String
  methods : List MethodView
  deriving DecidableEq, Repr, Inhabited

/-- The classes that a client imports: those of its requests and responses. -/
def clientImports (actions : List Action) : List String :=
  (actions.flatMap (·.dependsOn)).foldl
    (fun acc name =>
      let cls := Naming.className name
      if acc.contains cls then acc else acc ++ [cls])
    []

/-- The view of a client with its actions. -/
def clientView (l : Language) (index : Index) (client : String) (actions : List Action) :
    Outcome ClientView := do
  let methods ← methodViews l index [] actions
  pure ⟨Naming.clientClass client, clientImports actions, methods⟩

end ClientForge.Emission
