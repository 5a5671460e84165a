/-!
# Single-quoted source literals

Both target languages write a text between single quotes, with a backslash before
each quote and each backslash of the text and every other character as itself.
`read` follows the reader's rule for such literals: a backslash escapes only a
backslash or a quote, every other character stands for itself, and the first quote
that is not escaped ends the literal. Reading undoes writing and leaves the rest of
the source alone, whatever follows.
-/

namespace ClientForge.Text.Literal

/-- The body of a literal: quotes and backslashes are escaped. -/
def escape : List Char → List Char
  | [] => []
  | c :: rest =>
    if c = '\x27' ∨ c = '\x5c' then '\x5c' :: c :: escape rest else c :: escape rest

/-- The literal of a text. -/
def write (cs : List Char) : List Char := '\x27' :: (escape cs ++ ['\x27'])

/-- The text of a literal's body up to the closing quote, and what follows the quote. -/
def readBody : List Char → Option (List Char × List Char)
  | [] => none
  | '\x27' :: rest => some ([], rest)
  | '\x5c' :: '\x27' :: rest => (readBody rest).map fun r => ('\x27' :: r.1, r.2)
  | '\x5c' :: '\x5c' :: rest => (readBody rest).map fun r => ('\x5c' :: r.1, r.2)
  | c :: rest => (readBody rest).map fun r => (c :: r.1, r.2)

/-- The text of the literal at the head of a source, and the source after it. -/
def read : List Char → Option (List Char × List Char)
  | '\x27' :: rest => readBody rest
  | _ => none

/-- The literal of a string. -/
def quote (s : String) : String := String.ofList (write s.toList)

end ClientForge.Text.Literal
