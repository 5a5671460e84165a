import ClientForge.Text.Blank

/-!
# Words of a name

A name in any style (`snake_case`, `kebab-case`, blanks, `camelCase`) is a sequence
of words over the ASCII letters and digits; every other character separates. Within
a run of letters and digits a word goes on from one character to the next in four
cases: letters and digits go on after a small letter unless the letter is a capital,
digits go on after a digit, a small letter goes on after a capital, and a capital
goes on after a capital unless a small letter follows it, for then it opens a word of
its own. So `URLPath2` has the words `URL` and `Path2`.
-/

namespace ClientForge.Naming

open ClientForge.Text

/-- Whether the word of a character goes on with the rest of the text. -/
def goesOn (c : Char) : List Char → Bool
  | [] => false
  | d :: rest =>
    if isAsciiLower c then isAsciiLower d || isAsciiDigit d
    else if isAsciiDigit c then isAsciiDigit d
    else isAsciiLower d || (isAsciiUpper d && !rest.head?.any isAsciiLower)

/-- A character before the first of some words. -/
def attach (c : Char) : List (List Char) → List (List Char)
  | [] => [[c]]
  | word :: rest => (c :: word) :: rest

/-- The words of a text. -/
def words : List Char → List (List Char)
  | [] => []
  | c :: rest =>
    if !isWordChar c then words rest
    else if goesOn c rest then attach c (words rest)
    else [c] :: words rest

/-- The runs of ASCII letters and digits of a text. -/
def runs : List Char → List (List Char)
  | [] => []
  | c :: rest =>
    if !isWordChar c then runs rest
    else if rest.head?.any isWordChar then attach c (runs rest)
    else [c] :: runs rest

/-- The capital of a small ASCII letter; every other character is itself. -/
def capital (c : Char) : Char := if isAsciiLower c then Char.ofNat (c.toNat - 32) else c

/-- The small letter of an ASCII capital; every other character is itself. -/
def small (c : Char) : Char := if isAsciiUpper c then Char.ofNat (c.toNat + 32) else c

/-- A text with its first letter as a capital. -/
def capitalized : List Char → List Char
  | [] => []
  | c :: rest => capital c :: rest

/-- A text with its first letter small. -/
def uncapitalized : List Char → List Char
  | [] => []
  | c :: rest => small c :: rest

/-- Words set together, each with a capital. -/
def pascalOf (ws : List (List Char)) : List Char := ws.flatMap capitalized

/-- An acronym: at least two characters, all of them capitals. -/
def isAcronym (word : List Char) : Bool := 2 ≤ word.length && word.all isAsciiUpper

/-- Words set together, each but the first with a capital; a leading acronym is small
throughout. -/
def camelOf : List (List Char) → List Char
  | [] => []
  | first :: rest =>
    (if isAcronym first then first.map small else uncapitalized first) ++ pascalOf rest

/-- The words of a name as strings. -/
def splitWords (name : String) : List String := (words name.toList).map String.ofList

/-- A name as one word with inner capitals and a leading one. -/
def pascal (name : String) : String := String.ofList (pascalOf (words name.toList))

/-- A name as one word with inner capitals only. -/
def camel (name : String) : String := String.ofList (camelOf (words name.toList))

/-- The words of a name in small letters, joined by hyphens. -/
def hyphenated (name : String) : String :=
  String.ofList (joinWith ['-'] ((words name.toList).map (·.map small)))

/-- The words of a name set together, each with one capital and otherwise small. -/
def titled (name : String) : String :=
  String.ofList ((words name.toList).flatMap fun w => capitalized (w.map small))

end ClientForge.Naming
