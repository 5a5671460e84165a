import ClientForge.Declaration.Shape
import ClientForge.Model.Definition

/-!
# Properties

The members that a declaration lists, in its order. A member is nullable if its key
ends in a question mark, if it says that it is not required, or if its type allows
nil. The raw type is the text from which its reference can be read again.
-/

namespace ClientForge.Declaration

open ClientForge.Value

/-- The value that the text of a member's type is made from, and how many lists are around
it. -/
def rawSource : Value → Value × Nat
  | .null => (.str "string", 0)
  | .str s => (.str (Text.strip s), 0)
  | .map es =>
    if Entries.hasText "enum" es then
      (((Entries.text? "type" es).getD .null).orElse (.str "string"), 0)
    else
      let token := declaredType? (.map es)
      match _hi : Entries.text? "items" es with
      | some items =>
        if token = some "array" ∨ token = none then
          let r := rawSource items
          (r.1, r.2 + 1)
        else (.str (namedType token es), 0)
      | none => if token = some "array" then (.str "any", 1) else (.str (namedType token es), 0)
  | v => (v, 0)
termination_by v => sizeOf v
decreasing_by
  have h := sizeOf_text?_lt _hi
  simp
  omega
where
  /-- The declared type, or what the keys tell. -/
  namedType (token : Option String) (es : Entries) : String :=
    match token with
    | some t => if t == "" then ofKeys es else t
    | none => ofKeys es
  /-- The type of a mapping that declares none. -/
  ofKeys (es : Entries) : String :=
    if Entries.hasText "properties" es then "object" else "string"

/-- The text of a member's type. -/
def rawType (raw : Value) : String :=
  let (source, depth) := rawSource raw
  source.text ++ String.join (List.replicate depth "[]")

/-- A key without its question mark, and whether it had one. -/
def optionalKey (key : String) : String × Bool :=
  match key.toList.reverse with
  | '?' :: rest => (String.ofList rest.reverse, true)
  | _ => (key, false)

/-- One member of a declaration. -/
def property (requiredByDefault : Bool) (key raw : Value) : Property :=
  let (name, marked) := optionalKey key.text
  let byKey := if marked then false else requiredByDefault
  let required := match raw with
    | .map es => ((Entries.text? "required" es).map isTruthy).getD byKey
    | _ => byKey
  let (reference, nil) := TypeExpr.ofNode (if raw.isNull then .str "string" else raw)
  { name
    rawType := rawType raw
    reference := reference.getD (.scalar .any)
    nullable := nil || !required
    description := description? raw }

/-- The members of a mapping in its order; anything else has none. -/
def properties (node : Value) (requiredByDefault : Bool) : List Property :=
  match node with
  | .map es => es.map fun e => property requiredByDefault e.1 e.2
  | _ => []

/-- The values that are written out where a node is read as members. -/
def memberTexts (node : Value) : List Value :=
  match node with
  | .map es => es.flatMap fun e => [e.1, (rawSource e.2).1, e.2.field "description"]
  | _ => []

end ClientForge.Declaration
