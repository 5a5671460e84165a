import ClientForge.Declaration.Properties

/-!
# Builders

A builder recognizes one shape of declaration and turns it into a definition, or into
nothing if such declarations are not emitted. There are five: filters, results,
enumerations, traits and plain objects. The declaration named `Filter` is the base
filter, which marks all filters of a document and is itself not emitted.
-/

namespace ClientForge

open ClientForge.Declaration ClientForge.Value

/-- A strategy for one shape of declaration: what it supports, what it builds, and the
values that it has to write out for that. The remark tells builders of one label apart
and is not shown in messages. -/
structure Builder where
  label : String
  supports : String → Value → Bool
  build : String → Value → Option Definition
  texts : Value → List Value := fun _ => []
  remark : String := ""

instance : Inhabited Builder := ⟨⟨"", fun _ _ => false, fun _ _ => none, fun _ => [], ""⟩⟩

namespace Builder

def baseFilterName : String := "Filter"

/-- Entries of a declaration that is a mapping. -/
def entries? : Value → Option Entries
  | .map es => some es
  | _ => none

/-- Whether a declaration is a mapping with a key. -/
def hasKey (key : String) (declaration : Value) : Bool :=
  (entries? declaration).any (Entries.hasText key)

/-- Types and traits whose name or supertype says that they are filters. -/
def filter : Builder where
  label := "FilterTypeDefinitionBuilder()"
  supports name declaration :=
    name == baseFilterName || declaredType? declaration == some baseFilterName ||
      (Text.endsWith name baseFilterName &&
        (hasKey "properties" declaration || hasKey "queryParameters" declaration))
  build name declaration :=
    some {
      name
      kind := .filter
      properties :=
        properties (declaration.field "properties") true ++
          properties (declaration.field "queryParameters") false
      parent := parent? declaration [baseFilterName]
      description := description? declaration
      isBaseFilter := name == baseFilterName }
  texts declaration :=
    memberTexts (declaration.field "properties") ++
      memberTexts (declaration.field "queryParameters") ++ [declaration.field "description"]

/-- A list without its first item of a kind. -/
def eraseFirst {α : Type} (p : α → Bool) : List α → List α
  | [] => []
  | x :: rest => if p x then rest else x :: eraseFirst p rest

/-- Wrappers around a list: the first array among the properties is the list. -/
def result : Builder where
  label := "ResultTypeDefinitionBuilder()"
  supports _ declaration := declaration.isMap && declaredType? declaration == some "Result"
  build name declaration := do
    let members := properties (declaration.field "properties") true
    let items ← members.find? (·.reference.isArray)
    pure {
      name
      kind := .result
      properties := eraseFirst (·.reference.isArray) members
      description := description? declaration
      itemType := items.reference.items?
      itemsKey := some (if items.name == "" then "items" else items.name) }
  texts declaration :=
    let node := declaration.field "properties"
    memberTexts node ++
      if (properties node true).any (·.reference.isArray) then [declaration.field "description"]
      else []

/-- Scalars with a list of values. -/
def enumeration : Builder where
  label := "EnumTypeDefinitionBuilder()"
  supports _ declaration :=
    match declaration.field "enum" with
    | .list _ =>
      match declaredType? declaration with
      | none => true
      | some token => ["string", "integer", "number"].contains token
    | _ => false
  build name declaration :=
    some {
      name
      kind := .enum
      description := description? declaration
      enumValues :=
        match declaration.field "enum" with
        | .list values => values.map Value.text
        | _ => [] }
  texts declaration :=
    declaration.field "description" ::
      match declaration.field "enum" with
      | .list values => values
      | _ => []

/-- The keys that only traits have. -/
def traitKeys : List String :=
  ["queryParameters", "queryString", "headers", "responses", "body", "is", "usage"]

/-- Traits, which contribute to actions only. -/
def trait : Builder where
  label := "TraitDefinitionBuilder()"
  supports _ declaration :=
    declaration.isMap && !hasKey "properties" declaration &&
      traitKeys.any fun key => hasKey key declaration
  build _ _ := none

/-- Types with properties, and types that extend another named type. -/
def object : Builder where
  label := "ObjectTypeDefinitionBuilder()"
  supports _ declaration :=
    hasKey "properties" declaration ||
      (match declaredType? declaration with
      | none => false
      | some token =>
        token == "object" ||
          ((parent? declaration []).isSome && !TypeExpr.isScalarToken token))
  build name declaration :=
    some {
      name
      kind := .object
      properties := properties (declaration.field "properties") true
      parent := parent? declaration ["object"]
      description := description? declaration }
  texts declaration :=
    memberTexts (declaration.field "properties") ++ [declaration.field "description"]

end Builder

end ClientForge
