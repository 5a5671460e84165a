import ClientForge.Naming.Word
import ClientForge.Ordered
import ClientForge.Text.Literal

/-!
# Enumeration cases

The constant of a value is its runs of ASCII letters and digits in capitals, joined
by underscores. A value without such a run is called `EMPTY`, and a constant may not
start with a digit. A constant that was met before gets the number of its meetings
as a suffix.
-/

namespace ClientForge.Emission

open ClientForge.Text

/-- The constant of a value. -/
def enumConstant (value : String) : String :=
  let cs := joinWith ['_'] ((Naming.runs value.toList).map (·.map Naming.capital))
  match cs with
  | [] => "EMPTY"
  | c :: _ => if isAsciiDigit c then "VALUE_" ++ String.ofList cs else String.ofList cs

/-- A constant with the value it stands for. -/
structure EnumCase where
  constant : String
  value : String
  deriving DecidableEq, Repr, Inhabited

/-- The literal of a case's value. -/
def EnumCase.literal (c : EnumCase) : String := Literal.quote c.value

/-- The cases of some values, with the number of times that each constant was met. -/
def enumCasesFrom : Table Nat → List String → List EnumCase
  | _, [] => []
  | used, value :: rest =>
    let constant := enumConstant value
    match used.get? constant with
    | some n =>
      ⟨constant ++ "_" ++ toString (n + 1), value⟩ ::
        enumCasesFrom (used.put constant (n + 1)) rest
    | none => ⟨constant, value⟩ :: enumCasesFrom (used.put constant 1) rest

/-- The cases of an enumeration's values. -/
def enumCases (values : List String) : List EnumCase := enumCasesFrom [] values

end ClientForge.Emission
