import ClientForge.Json
import ClientForge.TypeExpr.Reference

/-!
# Type definitions

The canonical description of one named type: its kind, its properties in the order
of declaration, and what its kind adds. Definitions refer to each other by name only.
Which of the additions a definition shows depends on its kind: the values of an
enumeration, the items of a result, the two base marks of a filter.
-/

namespace ClientForge

/-- The kinds of named types. -/
inductive TypeKind
  | object
  | result
  | enum
  | filter
  deriving DecidableEq, Repr, Inhabited

def TypeKind.name : TypeKind → String
  | object => "object"
  | result => "result"
  | enum => "enum"
  | filter => "filter"

def ReferenceKind.label : ReferenceKind → String
  | scalar => "scalar"
  | type => "type"
  | array => "array"

/-- The JSON form of a reference, members in the order of their names. -/
def Reference.toJson : Reference → Json
  | .leaf k n => .obj [("kind", .str k.label), ("name", .str n)]
  | .holding k n r => .obj [("items", r.toJson), ("kind", .str k.label), ("name", .str n)]

/-- The JSON form of a reference that may be missing. -/
def Reference.optionalJson : Option Reference → Json
  | some r => r.toJson
  | none => .null

/-- A member of a type. -/
structure Property where
  name : String
  rawType : String
  reference : Reference
  nullable : Bool
  description : Option String
  deriving DecidableEq, Repr, Inhabited

def Property.toJson (p : Property) : Json :=
  .obj [("description", .ofText? p.description), ("name", .str p.name),
    ("nullable", .bool p.nullable), ("raw_type", .str p.rawType),
    ("reference", p.reference.toJson)]

/-- A named type. -/
structure Definition where
  name : String
  kind : TypeKind := .object
  properties : List Property := []
  parent : Option String := none
  description : Option String := none
  enumValues : List String := []
  itemType : Option Reference := none
  itemsKey : Option String := none
  isBaseFilter : Bool := false
  extendsBaseFilter : Bool := false
  deriving DecidableEq, Repr, Inhabited

namespace Definition

def isFilter (d : Definition) : Bool := d.kind == .filter

/-- The property of a name. -/
def property? (d : Definition) (name : String) : Option Property :=
  d.properties.find? (·.name == name)

/-- The supertype, unless its name is empty. -/
def parentName? (d : Definition) : Option String := d.parent.filter (· ≠ "")

/-- The names of the types that a definition depends on: its supertype, then its
properties, then its items. -/
def dependsOn (d : Definition) : List String :=
  d.parentName?.toList ++ d.properties.flatMap (·.reference.dependsOn) ++
    d.itemType.toList.flatMap (·.dependsOn)

/-- The JSON form of a definition; what belongs to another kind is left out. -/
def toJson (d : Definition) : Json :=
  let description := ("description", Json.ofText? d.description)
  let kind := ("kind", Json.str d.kind.name)
  let name := ("name", Json.str d.name)
  let parent := ("parent", Json.ofText? d.parent)
  let properties := ("properties", Json.arr (d.properties.map (·.toJson)))
  match d.kind with
  | .object => .obj [description, kind, name, parent, properties]
  | .enum =>
    .obj [description, ("enum_values", .arr (d.enumValues.map .str)), kind, name, parent,
      properties]
  | .result =>
    .obj [description, ("item_type", Reference.optionalJson d.itemType),
      ("items_key", .ofText? d.itemsKey), kind, name, parent, properties]
  | .filter =>
    .obj [description, ("extends_base_filter", .bool d.extendsBaseFilter),
      ("is_base_filter", .bool d.isBaseFilter), kind, name, parent, properties]

end Definition

end ClientForge
