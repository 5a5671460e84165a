import ClientForge.TypeExpr.Node
import ClientForge.Value.Display

/-!
# Declarations

What a raw declaration says about itself: the one type that it extends, whether that
is another named type, and its description.
-/

namespace ClientForge.Declaration

open ClientForge.Value

/-- The type that a declaration extends, if it names exactly one. -/
def declaredType? : Value → Option String
  | .str s => some (Text.strip s)
  | .map es =>
    match Entries.text? "type" es with
    | some (.str s) => some (Text.strip s)
    | some (.list [.str s]) => some (Text.strip s)
    | _ => none
  | _ => none

/-- The named type that a declaration extends, unless it is one of those ignored. -/
def parent? (declaration : Value) (ignored : List String) : Option String := do
  let token ← declaredType? declaration
  if token == "" || ignored.contains token || TypeExpr.isScalarToken token then none
  let r := (TypeExpr.parse token).1
  if r.kind = .type then some r.name else none

/-- The description under its key, without blanks at its ends. -/
def entryDescription? (es : Entries) : Option String :=
  match Entries.text? "description" es with
  | some .null => none
  | some v => some (Text.strip v.text)
  | none => none

/-- The description of a declaration. -/
def description? : Value → Option String
  | .map es => entryDescription? es
  | _ => none

end ClientForge.Declaration
