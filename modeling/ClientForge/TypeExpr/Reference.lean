/-!
# Type references

The resolved type of a property or a payload: a scalar, a named type, or an array
over another reference. The kind of a reference and whether it carries an element
are separate matters, because descriptions that come from outside may combine them
freely; the constructors `scalar`, `named` and `array` only build the well-formed
ones.
-/

namespace ClientForge

/-- What the name of a reference means. -/
inductive ReferenceKind
  | scalar
  | type
  | array
  deriving DecidableEq, Repr, Inhabited

/-- The scalars that every target language can express. -/
inductive Scalar
  | string
  | integer
  | number
  | boolean
  | datetime
  | date
  | any
  deriving DecidableEq, Repr, Inhabited

namespace Scalar

/-- The name of a scalar. -/
def name : Scalar → String
  | string => "string"
  | integer => "integer"
  | number => "number"
  | boolean => "boolean"
  | datetime => "datetime"
  | date => "date"
  | any => "any"

def all : List Scalar := [string, integer, number, boolean, datetime, date, any]

/-- The scalar of a name. -/
def ofName? (s : String) : Option Scalar := all.find? (·.name == s)

@[simp] theorem ofName?_name (s : Scalar) : ofName? s.name = some s := by
  cases s <;> decide

end Scalar

/-- A resolved type: alone, or over the reference of its items. -/
inductive Reference
  | leaf (kind : ReferenceKind) (name : String)
  | holding (kind : ReferenceKind) (name : String) (items : Reference)
  deriving DecidableEq, Repr, Inhabited

namespace Reference

def kind : Reference → ReferenceKind
  | leaf k _ => k
  | holding k _ _ => k

def name : Reference → String
  | leaf _ n => n
  | holding _ n _ => n

def items? : Reference → Option Reference
  | leaf _ _ => none
  | holding _ _ r => some r

def scalar (s : Scalar) : Reference := leaf .scalar s.name

def named (typeName : String) : Reference := leaf .type typeName

/-- The array over a reference, named after it. -/
def array (items : Reference) : Reference := holding .array (items.name ++ "[]") items

/-- The array over an array, `depth` times. -/
def arrays : Nat → Reference → Reference
  | 0, r => r
  | depth + 1, r => arrays depth (array r)

def isScalar (r : Reference) : Bool := r.kind == .scalar

def isArray (r : Reference) : Bool := r.kind == .array

/-- The innermost reference. -/
def element : Reference → Reference
  | leaf k n => leaf k n
  | holding _ _ r => element r

/-- The name of the type that a reference depends on, if any. -/
def dependsOn (r : Reference) : List String :=
  if r.element.kind = .type then [r.element.name] else []

@[simp] theorem element_scalar (s : Scalar) : (scalar s).element = scalar s := rfl

@[simp] theorem element_named (n : String) : (named n).element = named n := rfl

@[simp] theorem element_array (r : Reference) : (array r).element = r.element := rfl

end Reference

end ClientForge
