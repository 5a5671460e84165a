import ClientForge.Naming.Resolver
import ClientForge.Text.Literal

/-!
# Path expressions

The path of an action without its leading slashes, as an expression over the method's
arguments. In one language the pieces are concatenated, each parameter encoded; in
the other a template takes the encoded parameters in order, with the percent signs of
the text doubled.
-/

namespace ClientForge.Emission

open ClientForge.Text

/-- A piece of a path over variables. -/
inductive PathPart
  | literal (text : String)
  | parameter (variableName : String)
  deriving DecidableEq, Repr, Inhabited

/-- A piece of a path with its parameter as a variable of the language. -/
def PathPart.ofPiece (l : Language) : PathPiece → PathPart
  | .text cs => .literal (String.ofList cs)
  | .parameter name => .parameter (Naming.variableName l (String.ofList name))

/-- A path without its leading slashes. -/
def relativePath (path : String) : List Char := path.toList.dropWhile (· == '/')

/-- The parts of an action's path; a path without any is one empty text. -/
def pathParts (l : Language) (path : String) : List PathPart :=
  match pathPieces (relativePath path) with
  | [] => [.literal ""]
  | pieces => pieces.map (.ofPiece l)

/-- The variable of a part that is a parameter. -/
def PathPart.variableName? : PathPart → Option String
  | .parameter v => some v
  | .literal _ => none

/-- A path expression of either language. -/
inductive PathExpr
  /-- Literals and encoded variables, set one after another. -/
  | concat (parts : List PathPart)
  /-- A single literal. -/
  | plain (text : String)
  /-- A template and the variables that fill it. -/
  | template (text : String) (arguments : List String)
  deriving DecidableEq, Repr, Inhabited

/-- A part in a template: percent signs are doubled, a parameter is a directive. -/
def PathPart.inTemplate : PathPart → List Char
  | .literal s => s.toList.flatMap fun c => if c = '%' then ['%', '%'] else [c]
  | .parameter _ => ['%', 's']

/-- The text of a part that is literal. -/
def PathPart.literalText : PathPart → String
  | .literal s => s
  | .parameter v => v

/-- The expression for some parts. -/
def pathExpr (l : Language) (parts : List PathPart) : PathExpr :=
  match l with
  | .javascript => .concat parts
  | .php =>
    let arguments := parts.filterMap (·.variableName?)
    if arguments.isEmpty then .plain (String.join (parts.map (·.literalText)))
    else .template (String.ofList (parts.flatMap (·.inTemplate))) arguments

/-- A part of a concatenation as source text. -/
def PathPart.source : PathPart → String
  | .literal s => Literal.quote s
  | .parameter v => "encodeURIComponent(" ++ v ++ ")"

/-- A path expression as source text. -/
def PathExpr.source : PathExpr → String
  | .concat parts => " + ".intercalate (parts.map (·.source))
  | .plain s => Literal.quote s
  | .template s arguments =>
    "sprintf(" ++ Literal.quote s ++ ", " ++
      ", ".intercalate (arguments.map fun v => "urlencode($" ++ v ++ ")") ++ ")"

end ClientForge.Emission
