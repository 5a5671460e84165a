import ClientForge.Emission.PhpFile

/-!
# The source tree

Definitions and actions become the files of a package: one per definition in order,
one per client in the order in which clients first come up, and three that every
package has. Nothing is rendered unless every type that is referred to is defined,
and two files may not have one path.
-/

namespace ClientForge.Emission

/-- A generated file. -/
inductive SourceFile
  | javascript (file : JavascriptFile)
  | php (file : PhpFile)
  deriving Inhabited

/-- The text of a file; every line is ended. -/
def SourceFile.text (f : SourceFile) : String :=
  let lines := match f with
    | javascript j => j.lines
    | php p => p.lines
  String.join (lines.map (· ++ "\n"))

/-- Files under their paths in the order of rendering. -/
abbrev Tree := Table SourceFile

/-- What turns definitions and actions into files: names, the runtime library, the base
address and the version. -/
structure Emitter where
  resolver : Naming.Resolver
  common : Value
  baseUrl : Value
  version : Value
  /-- Whether the configured name of the client is a text, so that a class can be named
  after it. -/
  namesClients : Bool := true
  deriving Inhabited

/-- The settings from which an emitter is made. -/
structure Settings where
  vendor : Value := .str ""
  apiName : Value := .str ""
  package : Value := .null
  common : Value := .null
  baseUrl : Value := .null
  version : Value := .str "1.0.0"
  deriving Inhabited

namespace Emitter

def language (e : Emitter) : Language := e.resolver.language

/-- The emitter of a language. -/
def ofSettings (l : Language) (s : Settings) : Outcome Emitter := do
  let resolver : Naming.Resolver := ⟨l, s.vendor, s.apiName, s.package⟩
  let common ←
    if s.common.isTruthy then pure s.common else Value.str <$> resolver.defaultCommonPackage
  pure {
    resolver
    common
    baseUrl := s.baseUrl.orElse (.str "")
    version := s.version }

/-- The emitter of a language given by name. -/
def ofName (language : String) (s : Settings) : Outcome Emitter :=
  match Language.ofName? language with
  | some l => ofSettings l s
  | none => .error (.configuration (.unsupportedLanguage (.str language)))

end Emitter

/-- Who refers to which type, in the order in which references are checked. -/
def references (definitions : List Definition) (actions : List Action) : List (String × String) :=
  (definitions.flatMap fun d => d.dependsOn.map (·, "type " ++ d.name)) ++
    actions.flatMap fun a => a.dependsOn.map (·, a.describe)

/-- The first reference to a type that is not defined. -/
def dangling? (index : Index) (actions : List Action) : Option (String × String) :=
  (references index actions).find? fun r => !index.has r.1

/-- Refuse references to types that are not defined. -/
def checkReferences (l : Language) (index : Index) (actions : List Action) : Outcome Unit :=
  match dangling? index actions with
  | some (missing, by_) => .error (.unresolved missing by_ l)
  | none => .ok ()

/-- Actions by client, clients in the order in which they first come up. -/
def groupByClient (actions : List Action) : Table (List Action) :=
  actions.foldl (fun groups a => groups.put a.client ((groups.get? a.client).getD [] ++ [a])) []

/-- Add a file at a path that no file has yet. -/
def Tree.add (path : String) (file : SourceFile) (tree : Tree) : Outcome Tree :=
  if Table.has path tree then .error (.emission (.collision path)) else .ok (tree ++ [(path, file)])

/-- The file of a definition. -/
def entitySource (e : Emitter) (index : Index) (d : Definition) : Outcome SourceFile := do
  let v ← entityView e.language index d
  let needsCommon := d.kind ≠ .enum && v.base.isCommon
  match e.language with
  | .javascript => do
    needWritable (if needsCommon then [e.common] else [])
    pure (.javascript (if d.kind = .enum then .enumeration v else .entity e.common.text v))
  | .php => do
    let space ← e.resolver.namespaceName
    needWritable (if needsCommon then [e.common] else [])
    pure (.php (if d.kind = .enum then .enumeration space v else .entity space e.common.text v))

/-- The file of a client. A result can only be constructed with the key of its items. -/
def clientSource (e : Emitter) (index : Index) (client : String) (actions : List Action) :
    Outcome SourceFile := do
  let v ← clientView e.language index client actions
  let file ← match e.language with
    | .javascript => do
      let common ← written e.common
      pure (SourceFile.javascript (.client common v))
    | .php => do
      let space ← e.resolver.namespaceName
      let common ← written e.common
      pure (SourceFile.php (.client space common v))
  if v.methods.any (·.reply.lacksKey) then misused .noSuchPart else pure file

/-- The base address as the text of a literal. -/
def addressText (v : Value) : Outcome String :=
  match v with
  | .str s => .ok s
  | .bytes _ => misused .wrongType
  | .date _ => misused .wrongType
  | .dateTime _ => misused .wrongType
  | .time _ => misused .wrongType
  | _ => misused .noSuchPart

/-- The part of a package name before its first slash. -/
def packageVendor (v : Value) : Outcome String :=
  match v with
  | .str s => .ok (String.ofList (s.toList.takeWhile (· != '/')))
  | .bytes _ => misused .wrongType
  | _ => misused .noSuchPart

/-- The exported bindings of a JavaScript package with their modules. -/
def exportsOf (index : Index) (clients : List String) : List (String × String) :=
  ("DateFactory", "./service/DateFactory") ::
    ((clients.map fun c => (Naming.clientClass c, "./service/" ++ Naming.clientClass c)) ++
      index.map fun d => (Naming.className d.name, "./entity/" ++ Naming.className d.name))

/-- The files that every package has. -/
def supportFiles (e : Emitter) (index : Index) (clients : List String) :
    Outcome (List (String × SourceFile)) :=
  match e.language with
  | .javascript => do
    let name ← e.resolver.packageName
    needWritable [name, e.version, e.common]
    pure
      [("src/service/DateFactory.js", .javascript .dateFactory),
        ("src/index.js", .javascript (.index (exportsOf index clients))),
        ("package.json", .javascript (.manifest name.text e.version.text e.common.text))]
  | .php => do
    let space ← e.resolver.namespaceName
    let name ← e.resolver.packageName
    let vendor ← packageVendor name
    let common ← written e.common
    let baseUrl ← addressText e.baseUrl
    let version ← written e.version
    let autoload := (space ++ "\\").toList.flatMap fun c =>
      if c = '\x5c' then ['\x5c', '\x5c'] else [c]
    pure
      [("src/Service/DateFactory.php", .php (.dateFactory space)),
        ("src/Service/ClientFactory.php",
          .php (.clientFactory space common baseUrl (clients.map Naming.clientClass))),
        ("composer.json",
          .php (.manifest name.text version (vendor ++ "/lib-rest-client-common")
            (String.ofList autoload)))]

/-- The files of the definitions added to a tree. -/
def addEntities (e : Emitter) (index : Index) : List Definition → Tree → Outcome Tree
  | [], tree => .ok tree
  | d :: rest, tree => do
    let file ← entitySource e index d
    let tree ← tree.add (Naming.entityFile e.language d.name) file
    addEntities e index rest tree

/-- The files of the clients added to a tree. -/
def addClients (e : Emitter) (index : Index) : Table (List Action) → Tree → Outcome Tree
  | [], tree => .ok tree
  | (client, actions) :: rest, tree => do
    if !e.namesClients then misused .wrongType
    let file ← clientSource e index client actions
    let tree ← tree.add (Naming.clientFile e.language client) file
    addClients e index rest tree

/-- Files with their paths added to a tree. -/
def addFiles : List (String × SourceFile) → Tree → Outcome Tree
  | [], tree => .ok tree
  | (path, file) :: rest, tree => do
    let tree ← tree.add path file
    addFiles rest tree

/-- The source tree of definitions and actions. -/
def render (e : Emitter) (definitions : List Definition) (actions : List Action) :
    Outcome Tree := do
  checkReferences e.language definitions actions
  let groups := groupByClient actions
  let tree ← addEntities e definitions definitions []
  let tree ← addClients e definitions groups tree
  let support ← supportFiles e definitions groups.names
  addFiles support tree

end ClientForge.Emission
