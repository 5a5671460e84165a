/-!
# Log records

What a run tells besides its result. A record has a severity, the part of the program
that speaks, and a text. Records are data here; the outer layer decides which of them
are shown.
-/

namespace ClientForge

/-- How important a record is. -/
inductive Severity
  | debug
  | info
  | warning
  deriving DecidableEq, Repr, Inhabited

namespace Severity

def name : Severity → String
  | debug => "DEBUG"
  | info => "INFO"
  | warning => "WARNING"

/-- The place of a severity on the scale of levels. -/
def rank : Severity → Nat
  | debug => 10
  | info => 20
  | warning => 30

end Severity

/-- How much of the log is shown. -/
inductive LogLevel
  | debug
  | info
  | warning
  | error
  | critical
  deriving DecidableEq, Repr, Inhabited

namespace LogLevel

def name : LogLevel → String
  | debug => "DEBUG"
  | info => "INFO"
  | warning => "WARNING"
  | error => "ERROR"
  | critical => "CRITICAL"

/-- The place of a level on the scale of severities. -/
def rank : LogLevel → Nat
  | debug => 10
  | info => 20
  | warning => 30
  | error => 40
  | critical => 50

def all : List LogLevel := [debug, info, warning, error, critical]

/-- The level of a name in capitals. -/
def ofName? (s : String) : Option LogLevel := all.find? (·.name == s)

end LogLevel

/-- The parts of the program that write records. -/
inductive Speaker
  | source
  | catalog
  | registry
  | emission
  | generation
  deriving DecidableEq, Repr, Inhabited

def Speaker.name : Speaker → String
  | source => "clientgen.source"
  | catalog => "clientgen.orchestrator"
  | registry => "clientgen.builders.registry"
  | emission => "clientgen.emitters.base"
  | generation => "clientgen.generator"

/-- A log record. -/
structure Record where
  severity : Severity
  speaker : Speaker
  text : String
  deriving DecidableEq, Repr, Inhabited

/-- The line that shows a record. -/
def Record.line (r : Record) : String := r.severity.name ++ " " ++ r.speaker.name ++ ": " ++ r.text

def Record.isWarning (r : Record) : Bool := r.severity == .warning

end ClientForge
