import ClientForge.Yaml.Graph
import ClientForge.Yaml.Reading
import ClientForge.Yaml.Scalar

/-!
# Values of documents

The value of a document from its graph. A scalar has its value at once; the inside of a
collection is looked at later, in the order in which the collections were met, so that
faults and questions for other documents come in that order. Before a mapping is looked
at, the mappings that it merges are put before its own entries. A key may not be a
collection.
-/

namespace ClientForge.Yaml

open ClientForge.Value

/-- What is known of a node. -/
inductive Content
  /-- A collection whose inside was not looked at. -/
  | pending
  | whole (v : Value)
  | items (numbers : List Nat)
  | entries (es : List (Value × Nat))
  | members (ms : List Value)
  | pairs (ps : List (Nat × Nat))
  deriving Inhabited

/-- A document whose values are being made. -/
structure Workshop where
  graph : Graph
  contents : List (Nat × Content)
  /-- The collections that wait to be looked at. -/
  waiting : List Nat

/-- A step of making values. -/
abbrev Making := StateT Workshop Reading

namespace Workshop

/-- Give up with a fault. -/
def fault {α : Type} (f : Fault) : Making α := fun _ => Reading.failed f

def fromExcept {α : Type} (x : Except Fault α) : Making α := fun w =>
  Reading.ofExcept (x.map (·, w))

def node (number : Nat) : Making Node := do
  match (← get).graph[number]? with
  | some n => pure n
  | none => fault .malformed

def content? (number : Nat) : Making (Option Content) := do
  pure (((← get).contents.find? (·.1 == number)).map (·.2))

def put (number : Nat) (c : Content) : Making Unit :=
  modify fun w => { w with contents := (number, c) :: w.contents }

/-- What a node is made of. -/
def bodyOf (g : Graph) (number : Nat) : Option Body := (g[number]?).map (·.body)

/-- The entry of a mapping that stands for the mapping as a scalar. -/
def defaultEntry? (g : Graph) (entries : List (Nat × Nat)) : Option Nat :=
  (entries.find? fun e => (g[e.1]?).any (·.kind == .default)).map (·.2)

/-- The text of a scalar; a mapping may have one by its default entry. -/
def scalarText (g : Graph) : Nat → Nat → Except Fault String
  | 0, _ => .error .malformed
  | fuel + 1, number =>
    match bodyOf g number with
    | some (.scalar text) => .ok text
    | some (.mapping entries) =>
      match defaultEntry? g entries with
      | some n => scalarText g fuel n
      | none => .error .malformed
    | _ => .error .malformed

/-- The entries of a mapping. -/
def entriesOf (g : Graph) (number : Nat) : Option (List (Nat × Nat)) :=
  match bodyOf g number with
  | some (.mapping entries) => some entries
  | _ => none

def withEntries (number : Nat) (entries : List (Nat × Nat)) (g : Graph) : Graph :=
  g.modify number fun n => { n with body := .mapping entries }

def kindIs (k : Kind) (g : Graph) (number : Nat) : Bool := (g[number]?).any (·.kind == k)

/-- The entries that one merge brings, of mappings that are flattened first. -/
def mergedFrom (flat : Graph → Nat → Except Fault Graph) (g : Graph) (source : Nat) :
    Except Fault (Graph × List (Nat × Nat)) :=
  match bodyOf g source with
  | some (.mapping _) => do
    let g ← flat g source
    pure (g, (entriesOf g source).getD [])
  | some (.sequence items) =>
    items.foldlM (fun (g, later) item =>
      match entriesOf g item with
      | none => throw .malformed
      | some _ => do
        let g ← flat g item
        pure (g, (entriesOf g item).getD [] ++ later)) (g, [])
  | _ => .error .malformed

/-- Put the entries that a mapping merges before its own. Of several mappings in one
list, later ones come first; each is flattened before it is merged. -/
def flatten : Nat → Graph → Nat → Except Fault Graph
  | 0, g, _ => .ok g
  | fuel + 1, g, number => do
    let entries := (entriesOf g number).getD []
    let (merges, own) := entries.partition fun e => kindIs .merge g e.1
    let g := own.foldl (fun g e =>
      if kindIs .default g e.1 then g.modify e.1 fun n => { n with kind := .text } else g)
      (withEntries number own g)
    let (g, merged) ← merges.foldlM (fun (g, merged) e => do
      let (g, more) ← mergedFrom (flatten fuel) g e.2
      pure (g, merged ++ more)) (g, [])
    if merged.isEmpty then pure g
    else pure (withEntries number (merged ++ (entriesOf g number).getD []) g)

/-- The value of a scalar of a kind. -/
def scalarValue (kind : Kind) (number : Nat) : Making Value := do
  let g := (← get).graph
  let text ← fromExcept (scalarText g (g.size + 1) number)
  let cs := text.toList
  match kind with
  | .null => pure .null
  | .bool => (.bool ·) <$> fromExcept (Scalar.truth cs)
  | .int => (.int ·) <$> fromExcept (Scalar.integer cs)
  | .float => (.float ·) <$> fromExcept (Scalar.floating cs)
  | .binary => (.bytes ·) <$> fromExcept (Scalar.binary cs)
  | .timestamp =>
    if (entriesOf g number).isSome then fault (.misuse .wrongType)
    else fromExcept (Scalar.timestamp cs)
  | .document => fun w => do
    let v ← Reading.included text
    pure (v, w)
  | _ => pure (.str text)

def isCollection : Kind → Bool
  | .sequence => true
  | .mapping => true
  | .set => true
  | .orderedMapping => true
  | .pairs => true
  | _ => false

def isMark : Kind → Bool
  | .merge => true
  | .default => true
  | .unknown => true
  | _ => false

/-- Meet a node: a scalar gets its value, a collection waits. -/
def meet (number : Nat) : Making Unit := do
  if (← content? number).isSome then return
  let n ← node number
  if isMark n.kind then fault .malformed
  else if isCollection n.kind then
    put number .pending
    modify fun w => { w with waiting := w.waiting ++ [number] }
  else
    let v ← scalarValue n.kind number
    put number (.whole v)

/-- The value of a key, which may not be a collection. -/
def keyValue (number : Nat) : Making Value := do
  meet number
  match ← content? number with
  | some (.whole v) => if v.isKey then pure v else fault .malformed
  | _ => fault .malformed

/-- An entry of a mapping: the key, its node, and the node of the value. -/
structure Entry where
  key : Value
  keyNode : Nat
  valueNode : Nat
  deriving Inhabited

/-- Whether a node is the word for what is not a number. -/
def isNanWord (g : Graph) (number : Nat) : Bool :=
  kindIs .float g number &&
    match scalarText g (g.size + 1) number with
    | .ok text => Scalar.isNanWord text.toList
    | .error _ => false

/-- Whether two keys are one. What is not a number equals nothing, not even itself; it is
one key where it is one node, and its word is one key wherever it stands. -/
def isSameKey (g : Graph) (a b : Entry) : Bool :=
  same a.key b.key || a.keyNode == b.keyNode || (isNanWord g a.keyNode && isNanWord g b.keyNode)

/-- Write an entry: in the place of the same key, or at the end. -/
def putEntry (g : Graph) (e : Entry) : List Entry → List Entry
  | [] => [e]
  | d :: rest =>
    if isSameKey g d e then { d with valueNode := e.valueNode } :: rest
    else d :: putEntry g e rest

/-- The entries of a mapping, keys and values met in turn. -/
def mappingEntries (number : Nat) : Making (List (Value × Nat)) := do
  let g := (← get).graph
  if (entriesOf g number).isNone then fault .malformed
  let g ← fromExcept (flatten (g.size + 1) g number)
  modify fun w => { w with graph := g }
  let mut es := []
  for (k, v) in (entriesOf g number).getD [] do
    let key ← keyValue k
    meet v
    es := putEntry g ⟨key, k, v⟩ es
  pure (es.map fun e => (e.key, e.valueNode))

/-- The items of a sequence. -/
def sequenceItems (number : Nat) : Making (List Nat) := do
  match (← node number).body with
  | .sequence items => pure items
  | _ => fault .malformed

/-- The pairs of a sequence of mappings that have one entry each. -/
def pairItems (number : Nat) : Making (List (Nat × Nat)) := do
  let mut ps := []
  for item in ← sequenceItems number do
    match entriesOf (← get).graph item with
    | some [(k, v)] => do
      meet k
      meet v
      ps := ps ++ [(k, v)]
    | _ => fault .malformed
  pure ps

/-- Look at the inside of a collection. -/
def lookInside (number : Nat) : Making Unit := do
  let n ← node number
  match n.kind with
  | .mapping => put number (.entries (← mappingEntries number))
  | .set => put number (.members ((← mappingEntries number).map (·.1)))
  | .orderedMapping | .pairs => put number (.pairs (← pairItems number))
  | _ => do
    let items ← sequenceItems number
    for item in items do
      meet item
    put number (.items items)

/-- Look at the inside of the collections that wait, until none waits. -/
def lookInsideAll : Nat → Making Unit
  | 0 => pure ()
  | fuel + 1 => do
    match (← get).waiting with
    | [] => pure ()
    | number :: rest => do
      modify fun w => { w with waiting := rest }
      lookInside number
      lookInsideAll fuel

/-- What is known of a node. -/
def contentOf (contents : List (Nat × Content)) (number : Nat) : Option Content :=
  (contents.find? (·.1 == number)).map (·.2)

/-- The value of a node once all contents are known, with nodes nested at most so deep. A
node inside itself has no end. -/
def assemble (contents : List (Nat × Content)) : Nat → Nat → Except Fault Value
  | 0, _ => .error (.misuse .endless)
  | depth + 1, number =>
    let part := assemble contents depth
    match contentOf contents number with
    | some (.whole v) => pure v
    | some (.items numbers) => (.list ·) <$> numbers.mapM part
    | some (.entries es) => (.map ·) <$> es.mapM fun e => (e.1, ·) <$> part e.2
    | some (.members ms) => pure (.set ms)
    | some (.pairs ps) =>
      (.list ·) <$> ps.mapM fun p => do pure (.tuple [← part p.1, ← part p.2])
    | _ => pure .null

/-- The value of the root. -/
def rootValue (number : Nat) : Making Value := do
  let size := (← get).graph.size
  meet number
  lookInsideAll (size + 1)
  -- a chain of nodes that is longer than there are nodes meets one of them twice
  fromExcept (assemble (← get).contents (size + 1) number)

end Workshop

/-- The graph of a text. -/
def graphOf (text : String) : Except Fault (Graph × Option Nat) := do
  let input ← Input.ofText text
  Graph.ofTokens (tokens input)

/-- Read a document. An empty one is null. -/
def read (text : String) : Reading Value :=
  match graphOf text with
  | .error f => .failed f
  | .ok (_, none) => .done .null
  | .ok (g, some root) => do
    let (v, _) ← (Workshop.rootValue root).run ⟨g, [], []⟩
    pure v

end ClientForge.Yaml
