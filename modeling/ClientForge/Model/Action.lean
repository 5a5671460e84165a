import ClientForge.Json
import ClientForge.Model.Definition

/-!
# Resource actions

One operation of the interface: a method on a path, grouped under the client that
offers it. A path parameter is a non-empty text between braces; an opening brace that
no closing one follows, or that one follows at once, is ordinary text.
-/

namespace ClientForge

/-- The methods of the protocol that clients can call. -/
inductive Method
  | get
  | post
  | put
  | patch
  | delete
  | head
  | options
  deriving DecidableEq, Repr, Inhabited

namespace Method

def name : Method → String
  | get => "GET"
  | post => "POST"
  | put => "PUT"
  | patch => "PATCH"
  | delete => "DELETE"
  | head => "HEAD"
  | options => "OPTIONS"

def all : List Method := [get, post, put, patch, delete, head, options]

/-- The method of a name in capitals. -/
def ofName? (s : String) : Option Method := all.find? (·.name == s)

@[simp] theorem ofName?_name (m : Method) : ofName? m.name = some m := by
  cases m <;> decide

end Method

/-- A piece of a path: text, or the name of a parameter. -/
inductive PathPiece
  | text (cs : List Char)
  | parameter (name : List Char)
  deriving DecidableEq, Repr

/-- The name of the parameter that an opening brace before this text starts, and what
follows the closing brace. -/
def closeParameter : List Char → List Char → Option (List Char × List Char)
  | _, [] => none
  | name, '\x7d' :: rest => if name.isEmpty then none else some (name.reverse, rest)
  | name, c :: rest => closeParameter (c :: name) rest

theorem length_closeParameter {name cs found rest : List Char}
    (h : closeParameter name cs = some (found, rest)) : rest.length < cs.length := by
  fun_induction closeParameter name cs with
  | case1 => simp at h
  | case2 => simp at h
  | case3 => simp at h; simp [h.2]
  | case4 name c rest' _ ih => have := ih h; simp; omega

/-- A character before the pieces of the rest of a path. -/
def PathPiece.attach (c : Char) : List PathPiece → List PathPiece
  | .text cs :: rest => .text (c :: cs) :: rest
  | pieces => .text [c] :: pieces

/-- The pieces of a path. -/
def pathPieces : List Char → List PathPiece
  | [] => []
  | c :: rest =>
    if c = '\x7b' then
      match h : closeParameter [] rest with
      | some (name, after) =>
        have := length_closeParameter h
        .parameter name :: pathPieces after
      | none => PathPiece.attach c (pathPieces rest)
    else PathPiece.attach c (pathPieces rest)
termination_by cs => cs.length
decreasing_by all_goals simp; try omega

/-- The parameter of a piece, if it is one. -/
def PathPiece.parameter? : PathPiece → Option String
  | .parameter name => some (String.ofList name)
  | .text _ => none

/-- An operation. The display name is kept as the document gives it. -/
structure Action where
  client : String := "Transfer"
  method : Method := .get
  path : String
  description : Option String := none
  displayName : Value := .null
  requestType : Option Reference := none
  responseType : Option Reference := none
  deriving Inhabited

namespace Action

/-- The names of the path parameters from left to right. -/
def pathParameters (a : Action) : List String :=
  (pathPieces a.path.toList).filterMap (·.parameter?)

def describe (a : Action) : String := "action " ++ a.method.name ++ " " ++ a.path

/-- The names of the types that an action depends on: request, then response. -/
def dependsOn (a : Action) : List String :=
  a.requestType.toList.flatMap (·.dependsOn) ++ a.responseType.toList.flatMap (·.dependsOn)

/-- The JSON form of an action, if its display name has one. -/
def toJson? (a : Action) : Option Json := do
  let displayName ← Json.ofValue? a.displayName
  pure (.obj [("client", .str a.client), ("description", .ofText? a.description),
    ("display_name", displayName), ("method", .str a.method.name), ("path", .str a.path),
    ("request_type", Reference.optionalJson a.requestType),
    ("response_type", Reference.optionalJson a.responseType)])

end Action

end ClientForge
