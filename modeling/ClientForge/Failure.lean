import ClientForge.Value.Display

/-!
# Failures

Every failure that a run reports has a cause, a message, a stable code and details
from which a caller can tell what went wrong without reading the message. The codes
group the causes by the part of the work that failed: the document, the registry of
builders, a declaration that nothing accepts, a dangling type name, the output, the
settings. Values of the wrong type in a document or in the settings can defeat a
later step; those failures carry no report and are only told apart by what was asked
of the value.
-/

namespace ClientForge

/-- What was asked of a value that could not give it. -/
inductive Misuse
  /-- An operation on a value of the wrong type. -/
  | wrongType
  /-- A part that values of this type do not have. -/
  | noSuchPart
  /-- A name that is not in a fixed table. -/
  | unknownName
  /-- A value outside the range of its type. -/
  | badValue
  /-- A position beyond the end. -/
  | outOfRange
  /-- Bytes that are not text. -/
  | undecodable
  /-- A text that has no bytes. -/
  | unencodable
  /-- A number that no character has. -/
  | tooLarge
  /-- A path that the store cannot even look for. -/
  | unsearchable
  /-- A document that leads back to itself. -/
  | endless
  deriving DecidableEq, Repr, Inhabited

/-- The target languages. -/
inductive Language
  | javascript
  | php
  deriving DecidableEq, Repr, Inhabited

namespace Language

def name : Language → String
  | javascript => "javascript"
  | php => "php"

def all : List Language := [javascript, php]

def ofName? (s : String) : Option Language := all.find? (·.name == s)

@[simp] theorem ofName?_name (l : Language) : ofName? l.name = some l := by
  cases l <;> decide

end Language

/-- What is wrong with a specification document. -/
inductive SpecificationFault
  | rootNotMapping
  | sectionNotMapping (section_ : String)
  | badEntry (section_ : String) (entry : Value)
  | methodNotMapping (key path : String)
  | malformed
  | notFetched (location : String)
  | notRead (location cause : String)
  deriving Inhabited

namespace SpecificationFault

def message : SpecificationFault → String
  | rootNotMapping => "Specification root must be a mapping"
  | sectionNotMapping s => "'" ++ s ++ "' must be a mapping"
  | badEntry s entry => "Invalid entry in '" ++ s ++ "': " ++ entry.quoted
  | methodNotMapping key path => "Method '" ++ key ++ "' of " ++ path ++ " must be a mapping"
  | malformed => "Malformed specification"
  | notFetched location => "Cannot fetch " ++ location
  | notRead location cause => "Cannot read " ++ location ++ ": " ++ cause

end SpecificationFault

/-- Why a builder could not be registered. -/
inductive RegistryFault
  | frozen
  | incomparable
  | taken (existing : String)
  deriving DecidableEq, Repr, Inhabited

namespace RegistryFault

def message (position : Value) : RegistryFault → String
  | frozen => "Builder registry is frozen; register builders before generation starts"
  | incomparable => "Position " ++ position.quoted ++ " is not comparable with registered positions"
  | taken existing => "Position " ++ position.quoted ++ " is already taken by " ++ existing

end RegistryFault

/-- Why the output could not be produced. -/
inductive EmissionFault
  | collision (path : String)
  | notWritten (language : Language) (path cause : String)
  | notCleared (language : Language) (path cause : String)
  deriving DecidableEq, Repr, Inhabited

namespace EmissionFault

def message : EmissionFault → String
  | collision path => "Two generated files map to " ++ path
  | notWritten _ path cause => "Cannot write " ++ path ++ ": " ++ cause
  | notCleared _ path cause => "Cannot clear " ++ path ++ ": " ++ cause

def language? : EmissionFault → Option Language
  | collision _ => none
  | notWritten l _ _ => some l
  | notCleared l _ _ => some l

def path : EmissionFault → String
  | collision p => p
  | notWritten _ p _ => p
  | notCleared _ p _ => p

end EmissionFault

/-- What is wrong with the settings. -/
inductive ConfigurationFault
  | policy
  | language (given : Value)
  | unsupportedLanguage (given : Value)
  | emptyApiName
  | logLevel (given : String)
  | unknownSettings (names : List String)
  | unknownSettingsIn (path : String) (names : List String)
  | fileNotFound (path : String)
  | notRead (path cause : String)
  | malformed (path : String)
  deriving Inhabited

namespace ConfigurationFault

def policyNames : List String := ["warn", "error", "ignore"]

def message : ConfigurationFault → String
  | policy => "on_unrecognized must be one of " ++ ", ".intercalate policyNames
  | language given =>
    "language must be one of " ++ ", ".intercalate (Language.all.map Language.name) ++ ", got " ++
      given.quoted
  | unsupportedLanguage given =>
    "Unsupported language: " ++ given.text ++ " (supported: " ++
      ", ".intercalate (Language.all.map Language.name) ++ ")"
  | emptyApiName => "api_name must not be empty"
  | logLevel given => "Unknown log level " ++ Text.Quoted.text given
  | unknownSettings names => "Unknown setting(s): " ++ ", ".intercalate names
  | unknownSettingsIn path names =>
    "Unknown setting(s) in " ++ path ++ ": " ++ ", ".intercalate names
  | fileNotFound path => "Config file not found: " ++ path
  | notRead path cause => "Cannot read " ++ path ++ ": " ++ cause
  | malformed path => "Cannot read " ++ path

/-- The setting at fault, if it is one. -/
def key? : ConfigurationFault → Option String
  | policy => some "on_unrecognized"
  | language _ => some "language"
  | unsupportedLanguage _ => some "language"
  | emptyApiName => some "api_name"
  | logLevel _ => some "log_level"
  | unknownSettings _ => none
  | unknownSettingsIn _ _ => none
  | fileNotFound _ => some "config"
  | notRead _ _ => some "config"
  | malformed _ => some "config"

end ConfigurationFault

/-- A failure with its cause. -/
inductive Failure
  | specification (fault : SpecificationFault) (source : Option String)
  | registry (fault : RegistryFault) (position : Value) (builder : String)
  | unrecognized (names : List String)
  | unresolved (missing referencedBy : String) (language : Language)
  | emission (fault : EmissionFault)
  | configuration (fault : ConfigurationFault)
  | misuse (cause : Misuse)
  deriving Inhabited

namespace Failure

/-- What a failure reports besides its cause. -/
structure Report where
  category : String
  code : String
  message : String
  details : List (String × Value)
  hint : Option String
  deriving Inhabited

private def optional : Option String → Value
  | some s => .str s
  | none => .null

/-- The report of a failure; a misused value has none. -/
def report? : Failure → Option Report
  | specification fault source =>
    some ⟨"SpecificationError", "CG001", fault.message, [("source", optional source)], none⟩
  | registry fault position builder =>
    some ⟨"BuilderRegistryError", "CG002", fault.message position,
      [("position", position), ("builder", .str builder)], none⟩
  | unrecognized names =>
    some ⟨"UnrecognizedDeclarationError", "CG003",
      "No type builder accepts declaration(s): " ++ ", ".intercalate names,
      [("names", .list (names.map .str))],
      some "register a builder for these shapes or run without strict mode"⟩
  | unresolved missing by_ language =>
    some ⟨"UnresolvedReferenceError", "CG004",
      "Unknown type '" ++ missing ++ "' referenced by " ++ by_,
      [("missing_name", .str missing), ("referenced_by", .str by_),
        ("target_language", .str language.name)], none⟩
  | emission fault =>
    some ⟨"EmissionError", "CG005", fault.message,
      [("target_language", optional (fault.language?.map Language.name)),
        ("path", .str fault.path)], none⟩
  | configuration fault =>
    some ⟨"ConfigurationError", "CG006", fault.message, [("key", optional fault.key?)], none⟩
  | misuse _ => none

/-- The one-line form of a report: message, code and hint. -/
def Report.line (r : Report) : String :=
  r.message ++ " (" ++ r.code ++ ")" ++ (r.hint.map (" Hint: " ++ ·)).getD ""

/-- Whether a failure is reported rather than a misused value. -/
def isReported (f : Failure) : Bool := f.report?.isSome

end Failure

/-- A computation that may fail. -/
abbrev Outcome (α : Type) := Except Failure α

/-- Give up on a misused value. -/
def misused {α : Type} (cause : Misuse) : Outcome α := .error (.misuse cause)

/-- Give up unless some values can all be written out. -/
def needWritable (vs : List Value) : Outcome Unit :=
  if Value.areWritable vs then .ok () else misused .badValue

/-- A value as text of its own, if it can be written out. -/
def written (v : Value) : Outcome String := do
  needWritable [v]
  pure v.text

end ClientForge
