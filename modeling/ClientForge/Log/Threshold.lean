import ClientForge.Failure
import ClientForge.Log
import ClientForge.Ordered
import ClientForge.Text.Case

/-!
# Thresholds

Which records of a log are shown. A threshold is given by name, in any case of letters;
without one the environment is asked, and without an answer there the usual one holds,
as it does for names that mean nothing. Two names belong to the layout of records and
are refused.
-/

namespace ClientForge

/-- A threshold of a log: everything, or what is from a level on. -/
inductive Threshold
  | all
  | level (l : LogLevel)
  deriving DecidableEq, Repr, Inhabited

namespace Threshold

def name : Threshold → String
  | all => "NOTSET"
  | level l => l.name

/-- The names of thresholds, two of which have a second one. -/
def names : Table Threshold :=
  ("NOTSET", all) :: LogLevel.all.map (fun l => (l.name, level l)) ++
    [("WARN", level .warning), ("FATAL", level .critical)]

/-- The threshold where nothing else is asked for. -/
def usual : Threshold := level .info

/-- The names that stand for the layout of records. -/
def layoutNames : Table Misuse := [("BASIC_FORMAT", .badValue), ("_STYLES", .wrongType)]

/-- The threshold of a name in upper case. -/
def ofName (name : String) : Outcome Threshold :=
  match layoutNames.get? name with
  | some cause => misused cause
  | none => .ok ((names.get? name).getD usual)

/-- The variable of the environment that names a threshold. -/
def variableName : String := "CLIENTGEN_LOG_LEVEL"

/-- The first text that is there and not empty. -/
def firstFilled (given : List (Option String)) : Option String :=
  given.findSome? fun s => s.filter (· != "")

/-- The threshold that is asked for, by name or by the environment. -/
def choose (asked : Option String) (environment : Table String) : Outcome Threshold :=
  ofName (Text.upper ((firstFilled [asked, environment.get? variableName]).getD usual.name))

end Threshold

end ClientForge
