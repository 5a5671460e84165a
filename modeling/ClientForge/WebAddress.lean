import ClientForge.WebAddress.Host

/-!
# Web addresses

An address has a scheme, a host, a path whose last segment may carry parameters, a
query and a fragment. A reference is resolved against the address of the document that
it stands in: what it leaves out is taken from there, a relative path starts from the
folder of that document, and dots in the path are followed.
-/

namespace ClientForge

/-- The parts of an address; a part that is left out is empty. -/
structure WebAddress where
  scheme : String
  host : List Char
  path : List Char
  parameters : List Char
  query : List Char
  fragment : List Char
  deriving DecidableEq, Repr, Inhabited

namespace WebAddress

open ClientForge.Text

/-- Whether a text is the address of a page that can be fetched. -/
def isFetchable (s : String) : Bool := startsWith s "http://" || startsWith s "https://"

/-- The text before the first character of a class, and the text from there on. -/
def cut (p : Char → Bool) (cs : List Char) : List Char × List Char := cs.span (!p ·)

/-- The text before the first of a character, and the text after it. -/
def cutOff (c : Char) (cs : List Char) : List Char × List Char :=
  let (before, rest) := cut (· == c) cs
  (before, rest.drop 1)

def isSchemeChar (c : Char) : Bool := isWordChar c || c == '+' || c == '-' || c == '.'

/-- Controls and spaces at the start, and tabs and ends of lines anywhere, do not count. -/
def clean (cs : List Char) : List Char :=
  (cs.dropWhile (·.toNat ≤ 32)).filter fun c => c != '\t' && c != '\r' && c != '\n'

/-- The scheme at the start of a text, or the one that is given. -/
def takeScheme (given : String) (cs : List Char) : String × List Char :=
  let (name, rest) := cut (· == ':') cs
  if !rest.isEmpty && name.head?.any isAsciiLetter && name.all isSchemeChar then
    (String.ofList (name.map Char.toLower), rest.drop 1)
  else (given, cs)

/-- The host after two slashes. -/
def takeHost : List Char → List Char × List Char
  | '/' :: '/' :: rest => cut (fun c => c == '/' || c == '?' || c == '#') rest
  | cs => ([], cs)

/-- The parameters of the last segment of a path. -/
def takeParameters (path : List Char) : List Char × List Char :=
  let last := (path.reverse.takeWhile (· != '/')).reverse
  let (name, parameters) := cutOff ';' last
  (path.take (path.length - last.length) ++ name, parameters)

/-- The parts of a text, with a scheme in case it has none; nothing if its host cannot be
one. -/
def ofText? (scheme : String) (s : String) : Option WebAddress :=
  let (scheme, cs) := takeScheme scheme (clean s.toList)
  let (host, cs) := takeHost cs
  let (cs, fragment) := cutOff '#' cs
  let (cs, query) := cutOff '?' cs
  let (path, parameters) := takeParameters cs
  if isHost host then some ⟨scheme, host, path, parameters, query, fragment⟩ else none

/-- A mark and a part, if there is the part. -/
def marked (mark : Char) (part : List Char) : List Char := if part.isEmpty then [] else mark :: part

/-- The text of an address. Without a host, a path that starts with two slashes needs no
others before it. -/
def text (a : WebAddress) : String :=
  let path := a.path ++ marked ';' a.parameters
  let tail := path ++ marked '?' a.query ++ marked '#' a.fragment
  a.scheme ++ ":" ++ String.ofList
    (if a.host.isEmpty && ['/', '/'].isPrefixOf path then tail
     else
      ['/', '/'] ++ a.host ++
        (if path.isEmpty || path.head? == some '/' then tail else '/' :: tail))

/-- Follow the dots of a path. A double dot takes the segment before it away. -/
def followDots (segments : List (List Char)) : List (List Char) :=
  let kept := segments.foldl (fun kept segment =>
    if segment == ['.', '.'] then kept.dropLast
    else if segment == ['.'] then kept
    else kept ++ [segment]) []
  if segments.getLast?.any fun s => s == ['.'] || s == ['.', '.'] then kept ++ [[]] else kept

/-- Without empty segments other than the first and the last. -/
def withoutGaps (segments : List (List Char)) : List (List Char) :=
  match segments with
  | first :: second :: rest =>
    first :: (((second :: rest).dropLast.filter (!·.isEmpty)) ++ (rest.getLast?.getD second :: []))
  | _ => segments

/-- The segments of the folder of a path. -/
def folderSegments (path : List Char) : List (List Char) :=
  let segments := splitAt '/' path
  if segments.getLast? == some [] then segments else segments.dropLast

/-- A path as seen from another one. -/
def joinPath (base path : List Char) : List Char :=
  let segments :=
    if path.head? == some '/' then splitAt '/' path
    else withoutGaps (folderSegments base ++ splitAt '/' path)
  let joined := joinWith ['/'] (followDots segments)
  if joined.isEmpty then ['/'] else joined

/-- A reference as seen from the address of the document that it stands in; nothing if
one of them has a host that cannot be one. A reference with a scheme of its own other
than that of the document stays as it is. -/
def join? (base reference : String) : Option String := do
  if reference == "" then return base
  let b ← ofText? "" base
  let r ← ofText? b.scheme reference
  if r.scheme != b.scheme then pure reference
  else if !r.host.isEmpty then pure r.text
  else if r.path.isEmpty && r.parameters.isEmpty then
    pure { b with
      query := if r.query.isEmpty then b.query else r.query
      fragment := r.fragment : WebAddress }.text
  else pure { r with host := b.host, path := joinPath b.path r.path : WebAddress }.text

end WebAddress

end ClientForge
