import ClientForge.Text.Blank
import ClientForge.TypeExpr.Reference

/-!
# Type expressions

An expression such as `Money[]` or `string | nil` names a type: alternatives between
bars, one pair of parentheses around them, array suffixes behind. `nil` among the
alternatives makes the type nullable unless an array stands around it. A single
alternative besides `nil` is the type itself; several have no common shape and stand
for any value.
-/

namespace ClientForge.TypeExpr

open ClientForge.Text

/-- The scalar tokens of the specification language. -/
def scalarOf? (token : List Char) : Option Scalar :=
  match String.ofList token with
  | "string" => some .string
  | "time-only" => some .string
  | "integer" => some .integer
  | "number" => some .number
  | "boolean" => some .boolean
  | "datetime" => some .datetime
  | "datetime-only" => some .datetime
  | "date-only" => some .date
  | "object" => some .any
  | "any" => some .any
  | "file" => some .any
  | _ => none

/-- Whether a token, blanks around it aside, is that of a scalar. -/
def isScalarToken (token : String) : Bool := (scalarOf? (trim token.toList)).isSome

def nilToken : List Char := "nil".toList

def arrayToken : List Char := "array".toList

/-- The reference of a single alternative. -/
def single (token : List Char) : Reference :=
  if token = arrayToken then .array (.scalar .any)
  else
    match scalarOf? token with
    | some s => .scalar s
    | none => .named (String.ofList token)

/-- The number of array suffixes of an expression read from its end, and what stands
before them. Blanks may stand around each suffix. -/
def suffixes : List Char → Nat × List Char
  | ']' :: '[' :: rest => ((suffixes rest).1 + 1, (suffixes rest).2)
  | c :: rest => if isBlank c then suffixes rest else (0, c :: rest)
  | [] => (0, [])

/-- An expression without one pair of enclosing parentheses. -/
def unwrap (cs : List Char) : List Char :=
  if cs.head? = some '(' ∧ cs.getLast? = some ')' then trim cs.tail.dropLast else cs

/-- The non-empty alternatives of an expression. -/
def alternatives (cs : List Char) : List (List Char) :=
  ((splitAt '|' cs).map trim).filter (!·.isEmpty)

/-- The reference that alternatives other than `nil` stand for. -/
def union : List (List Char) → Reference
  | [token] => single token
  | _ => .scalar .any

/-- The type that an expression names, and whether it may be null. -/
def parse (token : String) : Reference × Bool :=
  let (depth, reversed) := suffixes (trim token.toList).reverse
  let parts := alternatives (unwrap reversed.reverse)
  (.arrays depth (union (parts.filter (· ≠ nilToken))), parts.contains nilToken && depth == 0)

end ClientForge.TypeExpr
