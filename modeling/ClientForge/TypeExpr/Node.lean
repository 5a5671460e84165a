import ClientForge.TypeExpr.Token
import ClientForge.Value.Basic

/-!
# Type nodes

A type may be given as an expression or as an inline mapping. A mapping with an
enumeration is a string, one of type `array` is an array over its items, one whose
type is a list of one entry means that entry, and a bare group of properties has no
name and stands for any value. What is neither an expression nor a mapping gives no
type.
-/

namespace ClientForge

namespace Value

theorem sizeOf_get?_lt {es : Entries} {key v : Value} (h : es.get? key = some v) :
    sizeOf v < sizeOf es := by
  obtain ⟨e, he, rfl⟩ := Option.map_eq_some_iff.1 h
  have hm := List.mem_of_find?_eq_some he
  have h1 := List.sizeOf_lt_of_mem hm
  have h2 : sizeOf e.2 < sizeOf e := by
    cases e with
    | mk a b =>
      simp only [Prod.mk.sizeOf_spec]
      omega
  omega

theorem sizeOf_text?_lt {es : Entries} {key : String} {v : Value} (h : es.text? key = some v) :
    sizeOf v < sizeOf es :=
  sizeOf_get?_lt h

end Value

namespace TypeExpr

open ClientForge.Value

/-- The type under `items`, an array over anything if it has none. -/
private def overItems (parsed : Option Reference × Bool) : Option Reference × Bool :=
  (some (.array (parsed.1.getD (.scalar .any))), false)

/-- The type that a node describes, if any, and whether it may be null. -/
def ofNode : Value → Option Reference × Bool
  | .str token => (some (parse token).1, (parse token).2)
  | .map es =>
    if Entries.hasText "enum" es then (some (.scalar .string), false)
    else
      match _hd : Entries.text? "type" es, _hi : Entries.text? "items" es with
      | some (.str token), items =>
        if token == "array" then
          match items with
          | some node => overItems (ofNode node)
          | none => overItems (some (.scalar .any), false)
        else (some (parse token).1, (parse token).2)
      | none, some node => overItems (ofNode node)
      | some .null, some node => overItems (ofNode node)
      | some (.list [node]), _ => ofNode node
      | _, _ => (some (.scalar (if Entries.hasText "properties" es then .any else .string)), false)
  | _ => (none, false)
termination_by v => sizeOf v
decreasing_by
  · have := sizeOf_text?_lt _hi
    simp only [Value.map.sizeOf_spec]
    omega
  · have := sizeOf_text?_lt _hi
    simp only [Value.map.sizeOf_spec]
    omega
  · have := sizeOf_text?_lt _hi
    simp only [Value.map.sizeOf_spec]
    omega
  · have := sizeOf_text?_lt _hd
    simp only [Value.list.sizeOf_spec, List.cons.sizeOf_spec] at this
    simp only [Value.map.sizeOf_spec]
    omega

end TypeExpr

end ClientForge
