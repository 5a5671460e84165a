import ClientForge.Declaration.Builder
import ClientForge.Failure
import ClientForge.Value.Order

/-!
# Registry of builders

Builders stand at positions, which are values of one ordered family, and the entries
are kept in ascending order. A position holds one builder; putting another one there
is refused unless replacement is asked for. A frozen registry takes no more builders.
Dispatch asks the builders from the lowest position on, and the first that supports a
declaration has it.
-/

namespace ClientForge

/-- A builder at its position. -/
structure Placed where
  position : Value
  builder : Builder
  deriving Inhabited

/-- Builders in ascending order of position. -/
structure Registry where
  entries : List Placed
  frozen : Bool
  deriving Inhabited

namespace Registry

def empty : Registry := ⟨[], false⟩

def freeze (r : Registry) : Registry := { r with frozen := true }

/-- The first index between two bounds at which no smaller position stands, found by
halving; nothing if a position on the way cannot be compared. -/
def lowerBound? (positions : Array Value) (x : Value) (low high : Nat) : Option Nat :=
  if _h : low < high then
    let middle := (low + high) / 2
    match (positions[middle]?.getD .null).less? x with
    | none => none
    | some true => lowerBound? positions x (middle + 1) high
    | some false => lowerBound? positions x low middle
  else some low
termination_by high - low

/-- What a registration replaces. -/
structure Replacement where
  position : Value
  old : Builder
  new : Builder
  deriving Inhabited

/-- The notice of a replacement. -/
def Replacement.message (r : Replacement) : String :=
  "Builder " ++ r.new.label ++ " replaces " ++ r.old.label ++ " at position " ++ r.position.quoted

/-- Put a builder at a position. -/
def register (r : Registry) (builder : Builder) (position : Value) (replace : Bool) :
    Outcome (Registry × Option Replacement) :=
  if r.frozen then .error (.registry .frozen position builder.label)
  else
    let positions := (r.entries.map (·.position)).toArray
    match lowerBound? positions position 0 positions.size with
    | none => .error (.registry .incomparable position builder.label)
    | some index =>
      let placed : Placed := ⟨position, builder⟩
      match r.entries[index]? with
      | none => .ok ({ r with entries := r.entries ++ [placed] }, none)
      | some there =>
        if there.position.same position then
          if replace then
            .ok ({ r with entries := r.entries.set index placed },
              some ⟨position, there.builder, builder⟩)
          else .error (.registry (.taken there.builder.label) position builder.label)
        else
          .ok ({ r with entries := r.entries.take index ++ placed :: r.entries.drop index }, none)

/-- The builder of lowest position that supports a declaration. -/
def firstMatch (r : Registry) (name : String) (declaration : Value) : Option Builder :=
  (r.entries.find? fun e => e.builder.supports name declaration).map (·.builder)

/-- The five builders at their standard positions. -/
def standard : Registry where
  entries :=
    [⟨.int 100, .filter⟩, ⟨.int 200, .result⟩, ⟨.int 300, .enumeration⟩, ⟨.int 400, .trait⟩,
      ⟨.int 500, .object⟩]
  frozen := false

end Registry

end ClientForge
