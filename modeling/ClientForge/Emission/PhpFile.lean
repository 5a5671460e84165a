import ClientForge.Emission.JavascriptFile

/-!
# PHP files

The files of a PHP package: one class per file, in a namespace that follows the
folder, for each entity, enumeration and client, the date helper and the client
factory, and the manifest with the namespace that the source folder stands for.
Clients refer to entities through one alias.
-/

namespace ClientForge.Emission

open ClientForge.Text

/-- An import of one class or namespace. -/
structure Use where
  name : String
  alias? : Option String
  deriving DecidableEq, Repr, Inhabited

def Use.line (u : Use) : String :=
  "use " ++ u.name ++ ((u.alias?.map (" as " ++ ·)).getD "") ++ ";"

/-- A file of a PHP package. The space is the namespace of the package. -/
inductive PhpFile
  | entity (space common : String) (view : EntityView)
  | enumeration (space : String) (view : EntityView)
  | client (space common : String) (view : ClientView)
  | dateFactory (space : String)
  | clientFactory (space common baseUrl : String) (clients : List String)
  | manifest (packageName version requirement autoload : String)
  deriving Inhabited

namespace PhpFile

def entitySpace (space : String) : String := space ++ "\\Entity"

def serviceSpace (space : String) : String := space ++ "\\Service"

/-- The namespace that a file declares. -/
def space? : PhpFile → Option String
  | entity s _ _ => some (entitySpace s)
  | enumeration s _ => some (entitySpace s)
  | client s _ _ => some (serviceSpace s)
  | dateFactory s => some (serviceSpace s)
  | clientFactory s _ _ _ => some (serviceSpace s)
  | manifest _ _ _ _ => none

/-- The class that a file declares. -/
def declares? : PhpFile → Option String
  | entity _ _ v => some v.className
  | enumeration _ v => some v.className
  | client _ _ v => some v.className
  | dateFactory _ => some "DateFactory"
  | clientFactory _ _ _ _ => some "ClientFactory"
  | manifest _ _ _ _ => none

/-- The imports of a file from the top. -/
def uses : PhpFile → List Use
  | entity s common v =>
    (match v.base with
      | .common name => [⟨common ++ "\\Entity\\" ++ name, none⟩]
      | .generated _ => []) ++
      (if v.usesDate then [⟨serviceSpace s ++ "\\DateFactory", none⟩] else [])
  | enumeration _ _ => []
  | client s common v =>
    [⟨"Fig\\Http\\Message\\RequestMethodInterface", none⟩,
      ⟨common ++ "\\Client\\ApiClient", none⟩] ++
      (if v.imports.isEmpty then [] else [⟨entitySpace s, some "Entities"⟩])
  | dateFactory _ => []
  | clientFactory _ common _ _ => [⟨common ++ "\\Client\\ClientFactoryAbstract", none⟩]
  | manifest _ _ _ _ => []

def header (space : String) : List String := ["<?php", "", "namespace " ++ space ++ ";", ""]

/-- The method that makes the items of a result. -/
def itemLines (item : ItemView) : List String :=
  ["    protected function createItem(" ++
      (if item.conversion.wraps || item.conversion.isList then "array " else "") ++ "$data)",
    "    \x7b"] ++ (Body.creating .php item.conversion).phpLines ++ ["    \x7d"]

/-- The two accessors of a property. -/
def propertyLines (p : PropertyView) : List String :=
  ["    /**"] ++ memberComment p.description ++
    (if p.description.isEmpty then [] else ["     *"]) ++
    ["     * @return " ++ p.docType ++ (if p.nullable then "|null" else ""), "     */",
      "    public function " ++ p.getter ++ "()", "    \x7b"] ++
    (Body.reading p.key p.conversion).phpLines ++
    ["    \x7d", "", "    /**", "     * @param " ++ p.docType ++ " $" ++ p.variableName,
      "     * @return $this", "     */",
      "    public function " ++ p.setter ++ "($" ++ p.variableName ++ ")", "    \x7b"] ++
    (Body.writing p.key p.variableName p.conversion).phpLines ++ ["    \x7d"]

/-- Blocks of lines with an empty line between neighbours. -/
def separated : List (List String) → List String
  | [] => []
  | [block] => block
  | block :: rest => block ++ "" :: separated rest

def entityLines (f : PhpFile) (v : EntityView) : List String :=
  f.uses.map (·.line) ++ (if v.base.isCommon || v.usesDate then [""] else []) ++
    classComment v.description ++
    ["class " ++ v.className ++ " extends " ++ v.base.name, "\x7b"] ++
    separated (v.item.toList.map itemLines ++ v.properties.map propertyLines) ++ ["\x7d"]

def enumerationLines (v : EntityView) : List String :=
  classComment v.description ++ ["class " ++ v.className, "\x7b"] ++
    (v.cases.map fun c => "    const " ++ c.constant ++ " = " ++ c.literal ++ ";") ++ ["\x7d"]

/-- The statements that turn the response into the reply. -/
def replyLines (r : Reply) : List String :=
  match r with
  | .nothing => ["        $this->apiClient->makeRequest($request);"]
  | _ =>
    ["        $data = $this->apiClient->makeRequest($request);", "",
      "        return " ++ (r.code?.getD .data).php "Entities\\" ++ ";"]

/-- The class that a body argument must be of. -/
def argumentHint (m : MethodView) : String :=
  match m.body with
  | some b =>
    match b.conversion with
    | .entity _ => "Entities\\" ++ b.cls ++ " "
    | _ => ""
  | none => ""

/-- The arguments of a method, the body with its class. -/
def argumentList (m : MethodView) : String :=
  ", ".intercalate ((m.parameters.map ("$" ++ ·)) ++
    m.body.toList.map fun b => argumentHint m ++ "$" ++ b.variableName)

/-- The documented result of a method. -/
def returned (doc : Option String) : String :=
  match doc with
  | some d => if d == "" then "null" else d
  | none => "null"

def methodLines (m : MethodView) : List String :=
  ["", "    /**"] ++ memberComment m.description ++
    ["     * " ++ m.method.name ++ " " ++ m.path, "     *"] ++
    (m.parameters.map fun v => "     * @param string $" ++ v) ++
    (m.body.toList.map fun b => "     * @param " ++ b.docType ++ " $" ++ b.variableName) ++
    ["     * @return " ++ returned m.replyDoc, "     */",
      "    public function " ++ m.name ++ "(" ++ argumentList m ++ ")", "    \x7b",
      "        $request = $this->apiClient->createRequest(",
      "            RequestMethodInterface::METHOD_" ++ m.method.name ++ ",",
      "            " ++ m.pathExpr.source ++ ",",
      "            " ++ ((m.body.map fun b => "$" ++ b.variableName).getD "null"), "        );"] ++
    replyLines m.reply ++ ["    \x7d"]

def clientLines (f : PhpFile) (v : ClientView) : List String :=
  f.uses.map (·.line) ++
    ["", "class " ++ v.className, "\x7b", "    private $apiClient;", "",
      "    public function __construct(ApiClient $apiClient)", "    \x7b",
      "        $this->apiClient = $apiClient;", "    \x7d"] ++
    v.methods.flatMap methodLines ++ ["\x7d"]

def dateFactoryLines : List String :=
  ["class DateFactory", "\x7b", "    const FORMAT = \\DateTime::ATOM;", "",
    "    public static function create($value)", "    \x7b", "        if ($value === null) \x7b",
    "            return null;", "        \x7d", "",
    "        return new \\DateTimeImmutable($value);", "    \x7d", "",
    "    public static function format(?\\DateTimeInterface $date)", "    \x7b",
    "        if ($date === null) \x7b", "            return null;", "        \x7d", "",
    "        return $date->format(self::FORMAT);", "    \x7d", "\x7d"]

def factoryMethodLines (client : String) : List String :=
  ["", "    public function get" ++ client ++ "()", "    \x7b",
    "        return new " ++ client ++ "($this->apiClient);", "    \x7d"]

def clientFactoryLines (f : PhpFile) (baseUrl : String) (clients : List String) : List String :=
  f.uses.map (·.line) ++
    ["", "class ClientFactory extends ClientFactoryAbstract", "\x7b",
      "    const DEFAULT_BASE_URL = " ++ Literal.quote baseUrl ++ ";", "",
      "    private $apiClient;", "", "    public function __construct($options)", "    \x7b",
      "        $this->apiClient = $this->createApiClient($options);", "    \x7d"] ++
    clients.flatMap factoryMethodLines ++ ["\x7d"]

def manifestLines (packageName version requirement autoload : String) : List String :=
  ["\x7b", "    \"name\": \"" ++ packageName ++ "\",", "    \"version\": \"" ++ version ++ "\",",
    "    \"require\": \x7b", "        \"" ++ requirement ++ "\": \"*\"", "    \x7d,",
    "    \"autoload\": \x7b", "        \"psr-4\": \x7b",
    "            \"" ++ autoload ++ "\": \"src/\"",
    "        \x7d", "    \x7d", "\x7d"]

/-- The lines of a file below its namespace. -/
def body (f : PhpFile) : List String :=
  match f with
  | entity _ _ v => entityLines f v
  | enumeration _ v => enumerationLines v
  | client _ _ v => clientLines f v
  | dateFactory _ => dateFactoryLines
  | clientFactory _ _ baseUrl clients => clientFactoryLines f baseUrl clients
  | manifest p v r a => manifestLines p v r a

/-- The lines of a file. -/
def lines (f : PhpFile) : List String := (f.space?.map header).getD [] ++ f.body

end PhpFile

end ClientForge.Emission
