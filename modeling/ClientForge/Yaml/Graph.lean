import ClientForge.Yaml.Kind
import ClientForge.Yaml.Token

/-!
# Graphs of nodes

The nodes of a document under their numbers. An alias is no node of its own but leads
to the node that its anchor names, so that a document is a graph rather than a tree;
an anchor names its node as soon as the node starts. A stream holds one document at
most.
-/

namespace ClientForge.Yaml

/-- What a node is made of; other nodes stand by their numbers. -/
inductive Body
  | scalar (text : String)
  | sequence (items : List Nat)
  | mapping (entries : List (Nat × Nat))
  deriving Repr, Inhabited

/-- A node of a document. -/
structure Node where
  kind : Kind
  body : Body
  deriving Repr, Inhabited

/-- Nodes under their numbers. -/
abbrev Graph := Array Node

/-- A graph that is being built from tokens. -/
structure Builder where
  tokens : List Token
  nodes : Graph
  anchors : List (String × Nat)
  handles : List (String × String)

/-- A step of building. -/
abbrev Build := StateT Builder (Except Fault)

namespace Builder

/-- The next token; a fault in its place ends the work. -/
def peek : Build Token := do
  match (← get).tokens with
  | .fault f :: _ => throw f
  | t :: _ => pure t
  | [] => throw .malformed

/-- Go past the next token. -/
def advance : Build Unit := modify fun b => { b with tokens := b.tokens.drop 1 }

/-- Go past a token that has to come next. -/
def expect (t : Token) : Build Unit := do
  if (← peek) == t then advance else throw .malformed

/-- The handles that need no directive. -/
def standardHandles : List (String × String) := [("!", "!"), ("!!", Kind.standardStart)]

/-- The full form of a tag. -/
def fullTag (t : TagName) : Build String := do
  match t.handle with
  | none => pure t.ending
  | some h =>
    match ((← get).handles ++ standardHandles).find? (·.1 == h) with
    | some (_, start) => pure (start ++ t.ending)
    | none => throw .malformed

/-- An anchor, if it comes next. -/
def anchor? : Build (Option String) := do
  match ← peek with
  | .anchor name => do
    advance
    pure (some name)
  | _ => pure none

/-- A tag, if it comes next. -/
def tag? : Build (Option TagName) := do
  match ← peek with
  | .tag t => do
    advance
    pure (some t)
  | _ => pure none

/-- The anchor and the tag of a node, in either order. -/
def properties : Build (Option String × Option String) := do
  let first ← anchor?
  let tag ← tag?
  let second ← if first.isNone && tag.isSome then anchor? else pure none
  let full ← tag.mapM fullTag
  pure (first.or second, full)

/-- The tag that leaves the kind of a node to its form. -/
def openTag : String := "!"

/-- The kind of a node with a tag, or the kind of its form. -/
def kindOf (tag : Option String) (ofForm : Kind) : Kind :=
  match tag with
  | none => ofForm
  | some t => if t == openTag then ofForm else Kind.ofTag t

/-- The kind of a scalar. -/
def scalarKind (tag : Option String) (text : String) (plain : Bool) : Kind :=
  if plain || tag.isSome then kindOf tag (Kind.ofPlain text.toList) else .text

/-- Add a node under its anchor. No anchor names two nodes. -/
def add (anchor : Option String) (n : Node) : Build Nat := do
  let b ← get
  let number := b.nodes.size
  match anchor with
  | none => set { b with nodes := b.nodes.push n }
  | some name =>
    if b.anchors.any (·.1 == name) then throw .malformed
    set { b with nodes := b.nodes.push n, anchors := (name, number) :: b.anchors }
  pure number

/-- Give a node its body. -/
def complete (number : Nat) (body : Body) : Build Unit :=
  modify fun b => { b with nodes := b.nodes.modify number fun n => { n with body } }

/-- The node of a scalar that is left out. -/
def omitted : Build Nat := add none ⟨.null, .scalar ""⟩

/-- The node that an alias leads to. -/
def aliased (name : String) : Build Nat := do
  match (← get).anchors.find? (·.1 == name) with
  | some (_, number) => pure number
  | none => throw .malformed

mutual

/-- The node that comes next. A block collection may only start where blocks are
allowed, an item without a collection of its own only after a key or its colon. -/
def node (inBlock loose : Bool) : Nat → Build Nat
  | 0 => throw .malformed
  | fuel + 1 => do
    match ← peek with
    | .alias name => do
      advance
      aliased name
    | _ => do
      let (anchor, tag) ← properties
      match ← peek, inBlock, loose with
      | .item, _, true => do
        let number ← add anchor ⟨kindOf tag .sequence, .sequence []⟩
        let items ← looseItems fuel
        complete number (.sequence items)
        pure number
      | .scalar text plain, _, _ => do
        advance
        add anchor ⟨scalarKind tag text plain, .scalar text⟩
      | .flowSequence, _, _ => do
        advance
        let number ← add anchor ⟨kindOf tag .sequence, .sequence []⟩
        let items ← flowItems true fuel
        complete number (.sequence items)
        pure number
      | .flowMapping, _, _ => do
        advance
        let number ← add anchor ⟨kindOf tag .mapping, .mapping []⟩
        let entries ← flowEntries true fuel
        complete number (.mapping entries)
        pure number
      | .blockSequence, true, _ => do
        advance
        let number ← add anchor ⟨kindOf tag .sequence, .sequence []⟩
        let items ← blockItems fuel
        complete number (.sequence items)
        pure number
      | .blockMapping, true, _ => do
        advance
        let number ← add anchor ⟨kindOf tag .mapping, .mapping []⟩
        let entries ← blockEntries fuel
        complete number (.mapping entries)
        pure number
      | _, _, _ =>
        if anchor.isSome || tag.isSome then add anchor ⟨kindOf tag .null, .scalar ""⟩
        else throw .malformed

/-- A node, unless one of some tokens comes next. -/
def nodeUnless (ends : List Token) (inBlock loose : Bool) : Nat → Build Nat
  | 0 => throw .malformed
  | fuel + 1 => do
    if ends.contains (← peek) then omitted else node inBlock loose fuel

/-- The items of a block sequence. -/
def blockItems : Nat → Build (List Nat)
  | 0 => throw .malformed
  | fuel + 1 => do
    match ← peek with
    | .item => do
      advance
      let item ← nodeUnless [.item, .blockEnd] true false fuel
      let more ← blockItems fuel
      pure (item :: more)
    | _ => do
      expect .blockEnd
      pure []

/-- The items of a sequence that is not indented more than the mapping around it. -/
def looseItems : Nat → Build (List Nat)
  | 0 => throw .malformed
  | fuel + 1 => do
    match ← peek with
    | .item => do
      advance
      let item ← nodeUnless [.item, .key, .value, .blockEnd] true false fuel
      let more ← looseItems fuel
      pure (item :: more)
    | _ => pure []

/-- The entries of a block mapping. -/
def blockEntries : Nat → Build (List (Nat × Nat))
  | 0 => throw .malformed
  | fuel + 1 => do
    match ← peek with
    | .blockEnd => do
      advance
      pure []
    | .key => do
      advance
      let key ← nodeUnless [.key, .value, .blockEnd] true true fuel
      let value ← valueUnless [.key, .value, .blockEnd] true fuel
      let more ← blockEntries fuel
      pure ((key, value) :: more)
    | _ => throw .malformed

/-- The value after a colon, if there is a colon. -/
def valueUnless (ends : List Token) (inBlock : Bool) : Nat → Build Nat
  | 0 => throw .malformed
  | fuel + 1 => do
    match ← peek with
    | .value => do
      advance
      nodeUnless ends inBlock inBlock fuel
    | _ => omitted

/-- The items of a flow sequence. A key makes a mapping of one entry. -/
def flowItems (first : Bool) : Nat → Build (List Nat)
  | 0 => throw .malformed
  | fuel + 1 => do
    if (← peek) == .flowSequenceEnd then
      advance
      pure []
    else
      if !first then expect .comma
      match ← peek with
      | .flowSequenceEnd => do
        advance
        pure []
      | .key => do
        let number ← add none ⟨.mapping, .mapping []⟩
        advance
        let key ← nodeUnless [.value, .comma, .flowSequenceEnd] false false fuel
        let value ← valueUnless [.comma, .flowSequenceEnd] false fuel
        complete number (.mapping [(key, value)])
        let more ← flowItems false fuel
        pure (number :: more)
      | _ => do
        let item ← node false false fuel
        let more ← flowItems false fuel
        pure (item :: more)

/-- The entries of a flow mapping. What is no key is one without a value. -/
def flowEntries (first : Bool) : Nat → Build (List (Nat × Nat))
  | 0 => throw .malformed
  | fuel + 1 => do
    if (← peek) == .flowMappingEnd then
      advance
      pure []
    else
      if !first then expect .comma
      match ← peek with
      | .flowMappingEnd => do
        advance
        pure []
      | .key => do
        advance
        let key ← nodeUnless [.value, .comma, .flowMappingEnd] false false fuel
        let value ← valueUnless [.comma, .flowMappingEnd] false fuel
        let more ← flowEntries false fuel
        pure ((key, value) :: more)
      | _ => do
        let key ← node false false fuel
        let value ← omitted
        let more ← flowEntries false fuel
        pure ((key, value) :: more)

end

/-- The directives at the head of a document: the handles that they define. -/
def directives (versioned : Bool) (handles : List (String × String)) :
    List Token → Except Fault (List (String × String) × List Token)
  | .directive (.version isKnown) :: rest =>
    if versioned || !isKnown then .error .malformed else directives true handles rest
  | .directive (.tag handle start) :: rest =>
    if handles.any (·.1 == handle) then .error .malformed
    else directives versioned ((handle, start) :: handles) rest
  | .directive .other :: rest => directives versioned handles rest
  | ts => .ok (handles, ts)

/-- The tokens that nothing of a document stands before. -/
def endsContent : Token → Bool
  | .directive _ => true
  | .documentStart => true
  | .documentEnd => true
  | .streamEnd => true
  | _ => false

/-- The root of a document that starts with directives or a mark. -/
def explicitRoot (fuel : Nat) : Build Nat := do
  let (handles, tokens) ← directives false [] (← get).tokens
  modify fun b => { b with tokens, handles }
  expect .documentStart
  if endsContent (← peek) then omitted else node true false fuel

/-- The end of the only document. -/
def endOfStream : Nat → Build Unit
  | 0 => throw .malformed
  | fuel + 1 => do
    match ← peek with
    | .documentEnd => do
      advance
      endOfStream fuel
    | _ => expect .streamEnd

/-- The root of the document, if the stream has one. -/
def root (fuel : Nat) : Build (Option Nat) := do
  match ← peek with
  | .streamEnd => pure none
  | .directive _ | .documentStart => do
    let number ← explicitRoot fuel
    endOfStream fuel
    pure (some number)
  | _ => do
    let number ← node true false fuel
    endOfStream fuel
    pure (some number)

end Builder

/-- The graph of a document and the number of its root, if it has one. -/
def Graph.ofTokens (ts : List Token) : Except Fault (Graph × Option Nat) := do
  let (number, b) ← (Builder.root (3 * ts.length + 3)).run ⟨ts, #[], [], []⟩
  pure (b.nodes, number)

end ClientForge.Yaml
