import ClientForge.Log
import ClientForge.Ordered
import ClientForge.Registry

/-!
# The catalog of definitions

The declarations of a document, types first and then traits, become definitions. A
trait with the name of a type takes the place of that type. Each declaration goes to
the builder of lowest position that supports it. A base filter is not emitted; if one
was built anywhere in the document, every filter extends it. What happens to
declarations that no builder supports is a matter of policy.
-/

namespace ClientForge

/-- What to do about declarations that no builder supports. -/
inductive Policy
  | warn
  | refuse
  | ignore
  deriving DecidableEq, Repr, Inhabited

/-- The policy of a name. -/
def Policy.ofName? : String → Option Policy
  | "warn" => some .warn
  | "error" => some .refuse
  | "ignore" => some .ignore
  | _ => none

namespace Catalog

/-- What one pass over the declarations found: who handled what, what was built and is
emitted, whether a base filter was among them, and what nobody supports. -/
structure Pass where
  handled : List (String × String)
  definitions : List Definition
  sawBase : Bool
  skipped : List String
  deriving Inhabited

def Pass.empty : Pass := ⟨[], [], false, []⟩

/-- Whether a definition is the base filter. -/
def isBase (d : Definition) : Bool := d.isFilter && d.isBaseFilter

/-- Give a declaration to its builder, before the rest of the pass. -/
def step (r : Registry) (name : String) (declaration : Value) (rest : Pass) : Pass :=
  match r.firstMatch name declaration with
  | none => { rest with skipped := name :: rest.skipped }
  | some b =>
    let rest := { rest with handled := (name, b.label) :: rest.handled }
    match b.build name declaration with
    | none => rest
    | some d =>
      if isBase d then { rest with sawBase := true }
      else { rest with definitions := d :: rest.definitions }

/-- One pass over declarations in their order. -/
def pass (r : Registry) : Table Value → Pass
  | [] => .empty
  | (name, declaration) :: rest => step r name declaration (pass r rest)

/-- A filter marked as extending the base filter. -/
def extend (d : Definition) : Definition :=
  if d.isFilter then { d with extendsBaseFilter := true } else d

/-- The definitions of a pass, filters marked if there is a base filter. -/
def Pass.result (p : Pass) : List Definition :=
  if p.sawBase then p.definitions.map extend else p.definitions

/-- Types, then traits; a trait takes the place of a type of its name. -/
def merge (types traits : Table Value) : Table Value := types.update traits

/-- The records of the builders that handled something. -/
def Pass.handledRecords (p : Pass) : List Record :=
  p.handled.map fun h =>
    ⟨.debug, .catalog, "Declaration " ++ h.1 ++ " handled by " ++ h.2⟩

/-- The record of skipped declarations, where the policy asks for one. -/
def Pass.skippedRecords (policy : Policy) (p : Pass) : List Record :=
  if policy = .warn ∧ p.skipped ≠ [] then
    [⟨.warning, .catalog,
      "Skipped declarations no builder accepts: " ++ ", ".intercalate p.skipped⟩]
  else []

/-- The record of a finished pass. -/
def Pass.builtRecord (declared : Nat) (p : Pass) : Record :=
  ⟨.info, .catalog,
    "Built " ++ toString p.definitions.length ++ " type definitions from " ++ toString declared ++
      " declarations"⟩

/-- Whether the builder of a declaration can write out what it has to. -/
def isBuildable (r : Registry) (name : String) (declaration : Value) : Bool :=
  (r.firstMatch name declaration).all fun b => Value.areWritable (b.texts declaration)

/-- The definitions of a document, or the refusal of declarations that nobody supports. -/
def definitions (r : Registry) (policy : Policy) (types traits : Table Value) :
    Outcome (List Definition) :=
  let declared := merge types traits
  let p := pass r declared
  if declared.any fun e => !isBuildable r e.1 e.2 then misused .badValue
  else if policy = .refuse ∧ p.skipped ≠ [] then .error (.unrecognized p.skipped)
  else .ok p.result

/-- What is told about building the definitions of a document. The first declaration that
cannot be built ends the tale. -/
def records (r : Registry) (policy : Policy) (types traits : Table Value) : List Record :=
  let declared := merge types traits
  let built := declared.takeWhile fun e => isBuildable r e.1 e.2
  let p := pass r built
  p.handledRecords ++
    (if built.length < declared.length ∨ (policy = .refuse ∧ p.skipped ≠ []) then []
     else p.skippedRecords policy ++ [p.builtRecord declared.length])

end Catalog

end ClientForge
