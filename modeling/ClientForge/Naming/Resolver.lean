import ClientForge.Failure
import ClientForge.Model.Action
import ClientForge.Naming.Word

/-!
# Names in the target languages

The names that generated code gives to classes, files, accessors, variables and
methods, and the names of packages and namespaces. All of them are functions of the
names in the specification and of the vendor, the interface and the package that the
settings give. Settings may hold values of any type; a name is split into words only
if it is a text.
-/

namespace ClientForge.Naming

open ClientForge.Text

/-- Where names come from besides the specification. -/
structure Resolver where
  language : Language
  vendor : Value := .str ""
  apiName : Value := .str ""
  package : Value := .null
  deriving Inhabited

/-- The class of a type. -/
def className (name : String) : String := pascal name

/-- The class of a client. -/
def clientClass (client : String) : String := pascal client ++ "Client"

/-- The folder of entities and the folder of services. -/
def entityFolder : Language → String
  | .javascript => "entity"
  | .php => "Entity"

def serviceFolder : Language → String
  | .javascript => "service"
  | .php => "Service"

def extension : Language → String
  | .javascript => "js"
  | .php => "php"

/-- The file of a class in a folder of sources. -/
def sourcePath (l : Language) (folder name : String) : String :=
  "src/" ++ folder ++ "/" ++ name ++ "." ++ extension l

def entityFile (l : Language) (name : String) : String :=
  sourcePath l (entityFolder l) (className name)

def clientFile (l : Language) (client : String) : String :=
  sourcePath l (serviceFolder l) (clientClass client)

/-- Whether a reference is the boolean scalar. -/
def isBoolean (r : Reference) : Bool := r.isScalar && r.name == Scalar.boolean.name

/-- The method that reads a property. -/
def getter (name : String) (r : Reference) : String :=
  (if isBoolean r then "is" else "get") ++ pascal name

/-- The method that writes a property. -/
def setter (name : String) : String := "set" ++ pascal name

/-- The words that may not name a variable. -/
def reservedWords : Language → List String
  | .javascript =>
    ["break", "case", "catch", "class", "const", "continue", "debugger", "default", "delete",
      "do", "else", "enum", "export", "extends", "false", "finally", "for", "function", "if",
      "import", "in", "instanceof", "let", "new", "null", "return", "static", "super", "switch",
      "this", "throw", "true", "try", "typeof", "var", "void", "while", "with", "yield", "data",
      "request"]
  | .php => ["this", "data", "request"]

/-- The variable of a property or a parameter. -/
def variableName (l : Language) (name : String) : String :=
  let plain := camel name
  let base := if plain == "" then "value" else plain
  if base.toList.head?.any isAsciiDigit then "value" ++ base
  else if (reservedWords l).contains base then base ++ "Value"
  else base

/-- Whether a text is an identifier of both languages; one line feed may follow it. -/
def isIdentifierLine (cs : List Char) : Bool :=
  let body := match cs.reverse with
    | '\n' :: rest => rest.reverse
    | _ => cs
  match body with
  | [] => false
  | c :: rest => (isAsciiLetter c || c == '_') && rest.all fun d => isWordChar d || d == '_'

/-- The verb of a method where the path gives none. -/
def defaultVerb : Method → String
  | .get => "get"
  | .post => "create"
  | .put => "update"
  | .patch => "update"
  | .delete => "delete"
  | .head => "head"
  | .options => "options"

def isParameterSegment (segment : String) : Bool := startsWith segment "\x7b"

/-- The method name that the path and the method of an action give: a trailing fixed
segment of an action that changes something is its verb, the other fixed segments
follow. -/
def methodNameFromPath (a : Action) : String :=
  let segments := (split '/' a.path).filter (· ≠ "")
  let fixed := segments.filter (!isParameterSegment ·)
  let joined := fun (names : List String) => String.join (names.map pascal)
  match segments.getLast? with
  | some last =>
    if a.method ≠ .get ∧ 2 ≤ segments.length ∧ ¬ isParameterSegment last then
      camel last ++ joined fixed.dropLast
    else defaultVerb a.method ++ joined fixed
  | none => defaultVerb a.method ++ joined fixed

/-- The method name of an action: its display name if that is an identifier, else what
its path gives. A display name that is not a text cannot be tried. -/
def methodName (a : Action) : Outcome String :=
  match a.displayName with
  | .str s =>
    if isIdentifierLine s.toList then .ok (String.ofList (uncapitalized s.toList))
    else .ok (methodNameFromPath a)
  | v => if v.isTruthy then misused .wrongType else .ok (methodNameFromPath a)

/-- A setting as a text whose words are wanted. -/
def nameText (v : Value) : Outcome String :=
  match v with
  | .str s => .ok s
  | _ => misused .wrongType

/-- A name, or another one if it is empty. -/
def orName (name fallback : String) : String := if name == "" then fallback else name

namespace Resolver

/-- The hyphenated name of the interface, `api` if it has no words. -/
def apiWords (r : Resolver) : Outcome String := do
  let name ← nameText r.apiName
  pure (orName (hyphenated name) "api")

/-- The name of the generated package: the one from the settings, or one made from
vendor and interface. -/
def packageName (r : Resolver) : Outcome Value :=
  if r.package.isTruthy then .ok r.package
  else
    match r.language with
    | .javascript => do
      let name ← r.apiWords
      let vendor ← if r.vendor.isTruthy then (· ++ "-") <$> written r.vendor else pure ""
      pure (.str (vendor ++ name ++ "-client"))
    | .php => do
      let vendor ← nameText r.vendor
      let name ← r.apiWords
      pure (.str (orName (hyphenated vendor) "vendor" ++ "/lib-" ++ name ++ "-client"))

/-- The namespace of the generated classes. -/
def namespaceName (r : Resolver) : Outcome String := do
  let vendor ← nameText r.vendor
  let api ← nameText r.apiName
  let parts := [pascal vendor, orName (pascal api) "Api" ++ "Client"]
  pure ("\\".intercalate (parts.filter (· ≠ "")))

/-- The runtime library where the settings name none. -/
def defaultCommonPackage (r : Resolver) : Outcome String :=
  match r.language with
  | .javascript => .ok "http-client-common"
  | .php => do
    let vendor ← nameText r.vendor
    let name := titled vendor
    pure (if name == "" then "RestClientCommon" else name ++ "\\Component\\RestClientCommon")

end Resolver

end ClientForge.Naming
