import ClientForge.Yaml.Timestamp

/-!
# Kinds of nodes

A tag gives a node its kind. A plain scalar without a tag has the kind of the first form
that its text has: a word for a truth value, a number, nothing, a timestamp, one of the
marks for merging and for a default value. Any other text is just text.
-/

namespace ClientForge.Yaml

open ClientForge.Text (isAsciiDigit)

/-- What a node stands for. -/
inductive Kind
  | null
  | bool
  | int
  | float
  | binary
  | timestamp
  | text
  | sequence
  | mapping
  | set
  | orderedMapping
  | pairs
  | merge
  | default
  /-- Another document in the place of the node. -/
  | document
  | unknown
  deriving DecidableEq, Repr, Inhabited

namespace Kind

def standardStart : String := "tag:yaml.org,2002:"

/-- The kinds that tags can give, under the full form of the tag. -/
def tags : List (String × Kind) :=
  [("null", null), ("bool", bool), ("int", int), ("float", float), ("binary", binary),
    ("timestamp", timestamp), ("str", text), ("seq", sequence), ("map", mapping), ("set", set),
    ("omap", orderedMapping), ("pairs", pairs), ("merge", merge), ("value", default)].map
      (fun e => (standardStart ++ e.1, e.2)) ++ [("!include", document)]

/-- The kind that a tag gives. -/
def ofTag (tag : String) : Kind := ((tags.find? (·.1 == tag)).map (·.2)).getD unknown

/-- The words for truth values. -/
def truthWords : List String :=
  ["yes", "Yes", "YES", "no", "No", "NO", "true", "True", "TRUE", "false", "False", "FALSE",
    "on", "On", "ON", "off", "Off", "OFF"]

def nullWords : List String := ["~", "null", "Null", "NULL"]

def infinityWords : List String := [".inf", ".Inf", ".INF"]

def nanWords : List String := [".nan", ".NaN", ".NAN"]

def isDigitOrBar (c : Char) : Bool := isAsciiDigit c || c == '_'

/-- A non-empty run of characters of a class. -/
def isRun (p : Char → Bool) (cs : List Char) : Bool := !cs.isEmpty && cs.all p

/-- Digits and underscores that start with a digit. -/
def isDecimal (cs : List Char) : Bool := cs.head?.any isAsciiDigit && cs.all isDigitOrBar

/-- Digits and underscores that start with a digit other than zero. -/
def isPositive (cs : List Char) : Bool := isDecimal cs && cs.head? != some '0'

/-- Without one sign. -/
def unsigned (cs : List Char) : List Char := (Number.takeSign cs).2

/-- Minutes or seconds: a number below sixty of one or two digits. -/
def isSixtieth : List Char → Bool
  | [a] => isAsciiDigit a
  | [a, b] => '0' ≤ a && a ≤ '5' && isAsciiDigit b
  | _ => false

/-- A number whose further places count to the base sixty. -/
def isSexagesimal (isFirst : List Char → Bool) (cs : List Char) : Bool :=
  match Text.splitAt ':' cs with
  | first :: next :: more => isFirst first && (next :: more).all isSixtieth
  | _ => false

def isInteger (cs : List Char) : Bool :=
  let body := unsigned cs
  match body with
  | '0' :: 'b' :: rest => isRun (fun c => c == '0' || c == '1' || c == '_') rest
  | '0' :: 'x' :: rest => isRun (fun c => (Text.hexValue? c).isSome || c == '_') rest
  | '0' :: rest => rest.all fun c => ('0' ≤ c && c ≤ '7') || c == '_'
  | _ => isPositive body || isSexagesimal isPositive body

/-- Nothing, or an exponent with its sign. -/
def isExponent : List Char → Bool
  | [] => true
  | mark :: sign :: rest =>
    (mark == 'e' || mark == 'E') && (sign == '+' || sign == '-') && isRun isAsciiDigit rest
  | _ => false

/-- Digits and underscores, then an exponent if there is one. -/
def isFraction (cs : List Char) : Bool := isExponent (cs.dropWhile isDigitOrBar)

def isFloating (cs : List Char) : Bool :=
  let body := unsigned cs
  let word := String.ofList body
  infinityWords.contains word || nanWords.contains (String.ofList cs) ||
    match cs with
    | '.' :: rest => rest.head?.any isAsciiDigit && isFraction rest
    | _ =>
      let whole := body.takeWhile (· != '.')
      match body.drop whole.length with
      | _ :: fraction =>
        (isDecimal whole && isFraction fraction) ||
          (isSexagesimal isDecimal whole && fraction.all isDigitOrBar)
      | [] => false

def isTimestamp (cs : List Char) : Bool :=
  (Timestamp.parts? cs).any fun p => p.isFull || p.clock.isSome

/-- Without one line feed at the end. -/
def withoutLineEnd (cs : List Char) : List Char :=
  if cs.getLast? == some '\n' then cs.dropLast else cs

/-- The kind of a plain scalar. A line feed at its end does not count. -/
def ofPlain (cs : List Char) : Kind :=
  if cs.isEmpty then null
  else
    let body := withoutLineEnd cs
    let word := String.ofList body
    if truthWords.contains word then bool
    else if nullWords.contains word then null
    else if isFloating body then float
    else if isInteger body then int
    else if isTimestamp body then timestamp
    else if word == "<<" then merge
    else if word == "=" then default
    else if word == "!" || word == "&" || word == "*" then unknown
    else text

end Kind

end ClientForge.Yaml
