import ClientForge.Naming.Resolver

/-!
# Conversions and documented types

How a value of a type crosses the boundary of a generated class: dates go through the
date helper, entities are wrapped in their classes, scalars and enumerations pass as
they are. Which of these a type needs is decided by the innermost element, and an
array of any depth is converted once over its items. The documented type follows the
reference all the way down.
-/

namespace ClientForge.Emission

/-- The definitions of a build in the order of emission. -/
abbrev Index := List Definition

namespace Index

/-- The definition of a name; the last one counts. -/
def get? (index : Index) (name : String) : Option Definition :=
  index.reverse.find? (·.name == name)

def has (index : Index) (name : String) : Bool := (index.get? name).isSome

/-- The kind of a named type. -/
def kindOf (index : Index) (name : String) : Outcome TypeKind :=
  match index.get? name with
  | some d => .ok d.kind
  | none => misused .unknownName

end Index

/-- How a value crosses the boundary of a class. -/
inductive Conversion
  | plain
  | date
  | dates
  | entity (cls : String)
  | entities (cls : String)
  deriving DecidableEq, Repr, Inhabited

namespace Conversion

def name : Conversion → String
  | plain => "plain"
  | date => "date"
  | dates => "date_list"
  | entity _ => "entity"
  | entities _ => "entity_list"

def usesDate : Conversion → Bool
  | date => true
  | dates => true
  | _ => false

/-- Whether a list is converted item by item. -/
def isList : Conversion → Bool
  | dates => true
  | entities _ => true
  | _ => false

/-- Whether values are wrapped in a class. -/
def wraps : Conversion → Bool
  | entity _ => true
  | entities _ => true
  | _ => false

end Conversion

/-- The class of the innermost element, if it is a named type. -/
def elementClass? (r : Reference) : Option String :=
  if r.element.kind = .type then some (Naming.className r.element.name) else none

/-- The class under which elements are constructed. An element that is no named type
has the name `None` where a class is asked for. -/
def elementClass (r : Reference) : String := (elementClass? r).getD "None"

def isDateScalar (name : String) : Bool :=
  name == Scalar.datetime.name || name == Scalar.date.name

/-- The conversion for a reference. -/
def conversion (index : Index) (r : Reference) : Outcome Conversion :=
  if r.element.kind = .scalar then
    if isDateScalar r.element.name then .ok (if r.isArray then .dates else .date) else .ok .plain
  else do
    let kind ← index.kindOf r.element.name
    if kind = .enum then pure .plain
    else if r.isArray then pure (.entities (elementClass r))
    else pure (.entity (elementClass r))

/-- The documented type of a scalar. -/
def scalarDocType (l : Language) (s : Scalar) : String :=
  match l, s with
  | _, .string => "string"
  | .javascript, .integer => "number"
  | .javascript, .number => "number"
  | .javascript, .boolean => "boolean"
  | .javascript, .datetime => "Date"
  | .javascript, .date => "Date"
  | .javascript, .any => "*"
  | .php, .integer => "int"
  | .php, .number => "float"
  | .php, .boolean => "bool"
  | .php, .datetime => "\\DateTimeImmutable"
  | .php, .date => "\\DateTimeImmutable"
  | .php, .any => "mixed"

/-- The documented type of what is not an array. -/
def plainDocType (l : Language) (index : Index) (qualified : Bool) (kind : ReferenceKind)
    (name : String) : Outcome String :=
  if kind = .scalar then
    match Scalar.ofName? name with
    | some s => .ok (scalarDocType l s)
    | none => misused .unknownName
  else do
    let k ← index.kindOf name
    if k = .enum then pure "string"
    else
      let cls := Naming.className name
      pure (if l = .php ∧ qualified then "Entities\\" ++ cls else cls)

/-- The documented type of an array over items of a type. -/
def arrayDocType (l : Language) (inner : String) : String :=
  match l with
  | .javascript => "Array.<" ++ inner ++ ">"
  | .php => if inner == "mixed" then "array" else inner ++ "[]"

/-- The documented type of a reference. Class names are qualified only where they are
used outside the namespace of the entities. -/
def docType (l : Language) (index : Index) (qualified : Bool) : Reference → Outcome String
  | .leaf .array _ => misused .noSuchPart
  | .leaf kind name => plainDocType l index qualified kind name
  | .holding .array _ items => do
    let inner ← docType l index qualified items
    pure (arrayDocType l inner)
  | .holding kind name _ => plainDocType l index qualified kind name

end ClientForge.Emission
