import ClientForge.Emission.View

/-!
# JavaScript files

The files of a JavaScript package: a module for each entity, enumeration and client,
the date helper, an index that exports them all, and the manifest. A module imports
by name from the runtime library and by default from its neighbours, with paths
relative to its own folder and without the extension. Text of the specification goes
into comments and string literals as it is.
-/

namespace ClientForge.Emission

open ClientForge.Text

/-- An import of one binding. -/
structure Import where
  binding : String
  /-- Whether the binding is taken out of the module by name. -/
  named : Bool
  source : String
  deriving DecidableEq, Repr, Inhabited

def braced (s : String) : String := "\x7b" ++ s ++ "\x7d"

def Import.line (i : Import) : String :=
  "import " ++ (if i.named then braced (" " ++ i.binding ++ " ") else i.binding) ++ " from '" ++
    i.source ++ "';"

/-- A line of a block comment. -/
def commentLine (indent line : String) : String :=
  indent ++ " *" ++ (if line == "" then "" else " " ++ line)

/-- A block comment above a class; none without a text. -/
def classComment (description : List String) : List String :=
  if description.isEmpty then []
  else "/**" :: (description.map (commentLine "") ++ [" */"])

/-- The lines of a description inside a member's comment. -/
def memberComment (description : List String) : List String :=
  description.map (commentLine "    ")

/-- A file of a JavaScript package. -/
inductive JavascriptFile
  | entity (common : String) (view : EntityView)
  | enumeration (view : EntityView)
  | client (common : String) (view : ClientView)
  | dateFactory
  /-- The exported bindings with the modules that they come from. -/
  | index (exports : List (String × String))
  | manifest (packageName version common : String)
  deriving Inhabited

namespace JavascriptFile

/-- The import of the date helper into an entity. -/
def dateImport : Import := ⟨"DateFactory", false, "../service/DateFactory"⟩

/-- The import of the base class, if it comes from the runtime library. -/
def baseImports (common : String) (v : EntityView) : List Import :=
  match v.base with
  | .common name => [⟨name, true, common⟩]
  | .generated _ => []

/-- The imports from neighbouring modules. -/
def entityImports (v : EntityView) : List Import :=
  (if v.usesDate then [dateImport] else []) ++ v.imports.map fun cls => ⟨cls, false, "./" ++ cls⟩

def clientImports (v : ClientView) : List Import :=
  v.imports.map fun cls => ⟨cls, false, "../entity/" ++ cls⟩

/-- The import of the request factory into a client. -/
def requestImport (common : String) : Import := ⟨"RequestFactory", true, common⟩

/-- The imports of a file from the top. -/
def imports : JavascriptFile → List Import
  | entity common v => baseImports common v ++ entityImports v
  | enumeration _ => []
  | client common v => requestImport common :: clientImports v
  | dateFactory => []
  | index exports => exports.map fun e => ⟨e.1, false, e.2⟩
  | manifest _ _ _ => []

/-- The class or constant that a module declares. -/
def declares? : JavascriptFile → Option String
  | entity _ v => some v.className
  | enumeration v => some v.className
  | client _ v => some v.className
  | dateFactory => some "DateFactory"
  | index _ => none
  | manifest _ _ _ => none

/-- The method that makes the items of a result. -/
def itemLines (item : ItemView) : List String :=
  ["", "    /**", "     * @param \x7bObject\x7d data", "     * @return " ++ braced item.docType,
    "     */", "    createItem(data) \x7b"] ++
    (Body.creating .javascript item.conversion).javascriptLines ++ ["    \x7d"]

/-- The two accessors of a property. -/
def propertyLines (p : PropertyView) : List String :=
  ["", "    /**"] ++ memberComment p.description ++
    (if p.description.isEmpty then [] else ["     *"]) ++
    ["     * @return " ++ braced (p.docType ++ (if p.nullable then "|null" else "")), "     */",
      "    " ++ p.getter ++ "() \x7b"] ++
    (Body.reading p.key p.conversion).javascriptLines ++
    ["    \x7d", "", "    /**", "     * @param " ++ braced p.docType ++ " " ++ p.variableName,
      "     */", "    " ++ p.setter ++ "(" ++ p.variableName ++ ") \x7b"] ++
    (Body.writing p.key p.variableName p.conversion).javascriptLines ++ ["    \x7d"]

def exportLines (name : String) : List String := ["", "export default " ++ name ++ ";"]

def entityLines (common : String) (v : EntityView) : List String :=
  (baseImports common v).map (·.line) ++
    (if v.base.isCommon && (v.usesDate || !v.imports.isEmpty) then [""] else []) ++
    (entityImports v).map (·.line) ++ [""] ++ classComment v.description ++
    ["class " ++ v.className ++ " extends " ++ v.base.name ++ " \x7b"] ++
    v.item.toList.flatMap itemLines ++ v.properties.flatMap propertyLines ++ ["\x7d"] ++
    exportLines v.className

def enumerationLines (v : EntityView) : List String :=
  classComment v.description ++ ["const " ++ v.className ++ " = Object.freeze(\x7b"] ++
    (v.cases.map fun c => "    " ++ c.constant ++ ": " ++ c.literal ++ ",") ++ ["\x7d);"] ++
    exportLines v.className

/-- The statements that turn the response into the reply. -/
def replyLines (r : Reply) : List String :=
  match r.code? with
  | some c =>
    ["            .then((data) => \x7b", "                return " ++ c.javascript ++ ";",
      "            \x7d)"]
  | none => []

/-- The documented result of a method. -/
def promise (doc : Option String) : String :=
  "Promise.<" ++ (match doc with
    | some d => if d == "" then "*" else d
    | none => "*") ++ ">"

def methodLines (m : MethodView) : List String :=
  ["", "    /**"] ++ memberComment m.description ++
    ["     * " ++ m.method.name ++ " " ++ m.path, "     *"] ++
    (m.parameters.map fun v => "     * @param \x7bstring\x7d " ++ v) ++
    (m.body.toList.map fun b => "     * @param " ++ braced b.docType ++ " " ++ b.variableName) ++
    ["     * @return " ++ braced (promise m.replyDoc), "     */",
      "    " ++ m.name ++ "(" ++ ", ".intercalate m.arguments ++ ") \x7b",
      "        const request = RequestFactory.create(",
      "            " ++ Literal.quote m.method.name ++ ",",
      "            " ++ m.pathExpr.source ++ ",",
      "            " ++ ((m.body.map (·.variableName)).getD "null") ++ ",",
      "        );", "", "        return this.client", "            .performRequest(request)"] ++
    replyLines m.reply ++ ["        ;", "    \x7d"]

def clientLines (common : String) (v : ClientView) : List String :=
  [(requestImport common).line] ++ (if v.imports.isEmpty then [] else [""]) ++
    (clientImports v).map (·.line) ++
    ["", "class " ++ v.className ++ " \x7b", "", "    /**",
      "     * @param \x7bClientWrapper\x7d client", "     */", "    constructor(client) \x7b",
      "        this.client = client;", "    \x7d"] ++
    v.methods.flatMap methodLines ++ ["\x7d"] ++ exportLines v.className

def dateFactoryLines : List String :=
  ["class DateFactory \x7b", "", "    /**", "     * @param \x7bstring|null\x7d value",
    "     * @return \x7bDate|null\x7d", "     */", "    static create(value) \x7b",
    "        if (value === null || typeof value === 'undefined') \x7b", "            return null;",
    "        \x7d", "", "        return new Date(value);", "    \x7d", "", "    /**",
    "     * @param \x7bDate|null\x7d date", "     * @return \x7bstring|null\x7d", "     */",
    "    static format(date) \x7b",
    "        if (date === null || typeof date === 'undefined') \x7b", "            return null;",
    "        \x7d", "", "        return date.toISOString();", "    \x7d", "\x7d"] ++
    exportLines "DateFactory"

def indexLines (exports : List (String × String)) : List String :=
  (exports.map fun e => (Import.mk e.1 false e.2).line) ++ ["", "export \x7b"] ++
    (exports.map fun e => "    " ++ e.1 ++ ",") ++ ["\x7d;"]

def manifestLines (packageName version common : String) : List String :=
  ["\x7b", "  \"name\": \"" ++ packageName ++ "\",", "  \"version\": \"" ++ version ++ "\",",
    "  \"main\": \"src/index.js\",", "  \"dependencies\": \x7b", "    \"" ++ common ++ "\": \"*\"",
    "  \x7d", "\x7d"]

/-- The lines of a file. -/
def lines : JavascriptFile → List String
  | entity common v => entityLines common v
  | enumeration v => enumerationLines v
  | client common v => clientLines common v
  | dateFactory => dateFactoryLines
  | index exports => indexLines exports
  | manifest packageName version common => manifestLines packageName version common

end JavascriptFile

end ClientForge.Emission
