import DeclaredSchema.Yaml.Tag
import DeclaredSchema.Yaml.Token

/-!
# Nodes of a YAML document

A document is made of nodes: scalars, sequences and mappings, each with a tag that says what it stands
for. A node may be given a name and stand in further places by it, even inside itself. So nodes are
kept in an array, and a collection holds the numbers of the nodes in it.

## Main definitions

* `Yaml.Node`, `Yaml.Document` — the nodes
* `Yaml.Document.ofStream?` — the document of a text with at most one
-/

namespace DeclaredSchema.Yaml

/-- What a node consists of. The nodes inside it are given by their numbers. -/
inductive Content where
  | scalar (text : CodeText)
  | sequence (items : List Nat)
  | mapping (entries : List (Nat × Nat))
  deriving Repr

/-- A node of a document. -/
structure Node where
  tag : Tag
  content : Content
  deriving Repr

instance : Inhabited Node := ⟨⟨.null, .scalar ""⟩⟩

/-- The nodes of a document, and the number of the one that holds all others. -/
structure Document where
  nodes : Array Node
  root : Nat

namespace Document

/-! ## Steps -/

/-- The tokens to come, the nodes so far, those that have names, and the handles of tags. -/
structure Reading where
  stream : Stream
  nodes : Array Node
  names : List (String × Nat)
  handles : List (String × String)

/-- A step that reads tokens. -/
abbrev Read := StateT Reading (Except Fault)

/-- The next token. Behind the last one there is the fault of the stream, if it has one. -/
def here : Read Token := do
  let s := (← get).stream
  match s.tokens, s.fault with
  | t :: _, _ => return t
  | [], some fault => throw fault
  | [], none => return .textEnd

def skip : Read Unit :=
  modify fun r => { r with stream := { r.stream with tokens := r.stream.tokens.drop 1 } }

/-- Whether the next token is among the given ones. -/
def seesOneOf (ts : List Token) : Read Bool := return ts.contains (← here)

def expect (t : Token) : Read Unit := do
  if (← here) = t then skip else throw .malformed

/-- The number of a further node. -/
def add (tag : Tag) (content : Content) : Read Nat :=
  modifyGet fun r => (r.nodes.size, { r with nodes := r.nodes.push ⟨tag, content⟩ })

/-- Fills a node. -/
def fill (id : Nat) (content : Content) : Read Unit :=
  modify fun r => { r with nodes := r.nodes.modify id fun n => { n with content } }

/-- Nothing, where a node can be left out. -/
def empty : Read Nat := add .null (.scalar "")

/-- Gives a node a name; a name that is taken is refused. -/
def bind (name : Option String) (id : Nat) : Read Unit := do
  if let some name := name then
    if ((← get).names.lookup name).isSome then throw .malformed
    modify fun r => { r with names := (name, id) :: r.names }

/-! ## What stands before a node -/

/-- The tag that a handle and an ending make; a lone exclamation mark is no tag. -/
def tagOf (own : Option String) (ending : String) : Read (Option Tag) := do
  match own with
  | none => return if ending = "!" then none else some (Tag.ofUri ending)
  | some own =>
    match (← get).handles.lookup own with
    | some uri => return some (Tag.ofUri (uri ++ ending))
    | none => throw .malformed

/-- What stands before a node: its name, its tag, and whether there is anything at all. A lone
exclamation mark makes any scalar be read like a plain one. -/
structure Properties where
  name : Option String
  tag : Option Tag
  present : Bool
  asPlain : Bool

def nameHere : Read (Option String) := do
  match ← here with
  | .anchor name =>
    skip
    return some name
  | _ => return none

def tagHere : Read (Option (Option String × String)) := do
  match ← here with
  | .tag own ending =>
    skip
    return some (own, ending)
  | _ => return none

/-- The name and the tag before a node, in either order. -/
def properties : Read Properties := do
  let before ← nameHere
  let written ← tagHere
  let name ← if before.isSome then pure before else nameHere
  match written with
  | none => return ⟨name, none, name.isSome, false⟩
  | some (own, ending) =>
    let tag ← tagOf own ending
    return ⟨name, tag, true, tag.isNone⟩

/-! ## Nodes of tokens -/

/-- Where a node stands: in a flow collection, in a block collection, or in a place of a block
mapping where a sequence needs no indentation. -/
inductive Place where
  | flow | block | blockValue
  deriving DecidableEq, Repr

mutual

/-- The node that comes next. -/
def read : Nat → Place → Read Nat
  | 0, _ => throw .malformed
  | fuel + 1, place => do
    match ← here with
    | .aliasMark name =>
      skip
      match (← get).names.lookup name with
      | some id => return id
      | none => throw .malformed
    | _ =>
      let p ← properties
      content fuel place p

/-- A node without what stands before it. -/
def content : Nat → Place → Properties → Read Nat
  | 0, _, _ => throw .malformed
  | fuel + 1, place, p => do
    let sequence (items : Read (List Nat)) : Read Nat := do
      let id ← add (p.tag.getD .seq) (.sequence [])
      bind p.name id
      fill id (.sequence (← items))
      return id
    let mapping (entries : Read (List (Nat × Nat))) : Read Nat := do
      let id ← add (p.tag.getD .map) (.mapping [])
      bind p.name id
      fill id (.mapping (← entries))
      return id
    let scalar (text : CodeText) (plain : Bool) : Read Nat := do
      let own := if plain || p.asPlain then Tag.ofPlain text else .str
      let id ← add (p.tag.getD own) (.scalar text)
      bind p.name id
      return id
    match ← here with
    | .scalar text plain =>
      skip
      scalar text plain
    | .flowSequenceStart =>
      skip
      sequence (flowItems fuel true)
    | .flowMappingStart =>
      skip
      mapping (flowEntries fuel true)
    | .entry =>
      if place = .blockValue then sequence (looseItems fuel)
      else if p.present then scalar "" true
      else throw .malformed
    | .sequenceStart =>
      if place ≠ .flow then
        skip
        sequence (blockItems fuel)
      else if p.present then scalar "" true
      else throw .malformed
    | .mappingStart =>
      if place ≠ .flow then
        skip
        mapping (blockEntries fuel)
      else if p.present then scalar "" true
      else throw .malformed
    | _ => if p.present then scalar "" true else throw .malformed

/-- The node that comes next, or an empty one before the given tokens. -/
def readUnless : Nat → Place → List Token → Read Nat
  | 0, _, _ => throw .malformed
  | fuel + 1, place, ends => do
    if ← seesOneOf ends then empty else read fuel place

/-- The items of a block sequence. -/
def blockItems : Nat → Read (List Nat)
  | 0 => throw .malformed
  | fuel + 1 => do
    if ← seesOneOf [.entry] then
      skip
      let item ← readUnless fuel .block [.entry, .blockEnd]
      return item :: (← blockItems fuel)
    else
      expect .blockEnd
      return []

/-- The items of a sequence that is not indented. -/
def looseItems : Nat → Read (List Nat)
  | 0 => throw .malformed
  | fuel + 1 => do
    if ← seesOneOf [.entry] then
      skip
      let item ← readUnless fuel .block [.entry, .key, .value, .blockEnd]
      return item :: (← looseItems fuel)
    else return []

/-- The entries of a block mapping. -/
def blockEntries : Nat → Read (List (Nat × Nat))
  | 0 => throw .malformed
  | fuel + 1 => do
    if ← seesOneOf [.key] then
      skip
      let key ← readUnless fuel .blockValue [.key, .value, .blockEnd]
      let value ← valueAfter fuel .blockValue [.key, .value, .blockEnd]
      return (key, value) :: (← blockEntries fuel)
    else
      expect .blockEnd
      return []

/-- The value behind a key, if one follows. -/
def valueAfter : Nat → Place → List Token → Read Nat
  | 0, _, _ => throw .malformed
  | fuel + 1, place, ends => do
    if ← seesOneOf [.value] then
      skip
      readUnless fuel place ends
    else empty

/-- The items of a flow sequence. A key starts a mapping of a single entry. -/
def flowItems : Nat → Bool → Read (List Nat)
  | 0, _ => throw .malformed
  | fuel + 1, first => do
    if ← seesOneOf [.flowSequenceEnd] then
      skip
      return []
    else
      if !first then expect .flowEntry
      if ← seesOneOf [.key] then
        skip
        let key ← readUnless fuel .flow [.value, .flowEntry, .flowSequenceEnd]
        let value ← valueAfter fuel .flow [.flowEntry, .flowSequenceEnd]
        let pair ← add .map (.mapping [(key, value)])
        return pair :: (← flowItems fuel false)
      else if ← seesOneOf [.flowSequenceEnd] then
        skip
        return []
      else
        let item ← read fuel .flow
        return item :: (← flowItems fuel false)

/-- The entries of a flow mapping. -/
def flowEntries : Nat → Bool → Read (List (Nat × Nat))
  | 0, _ => throw .malformed
  | fuel + 1, first => do
    if ← seesOneOf [.flowMappingEnd] then
      skip
      return []
    else
      if !first then expect .flowEntry
      if ← seesOneOf [.key] then
        skip
        let key ← readUnless fuel .flow [.value, .flowEntry, .flowMappingEnd]
        let value ← valueAfter fuel .flow [.flowEntry, .flowMappingEnd]
        return (key, value) :: (← flowEntries fuel false)
      else if ← seesOneOf [.flowMappingEnd] then
        skip
        return []
      else
        let key ← read fuel .flow
        let value ← empty
        return (key, value) :: (← flowEntries fuel false)

end

/-! ## Documents -/

/-- The handles that every document has. -/
def standardHandles : List (String × String) := [("!", "!"), ("!!", Tag.core)]

/-- The directives before a document: whether there was a version, and the handles so far. -/
def directives : Nat → Bool → List (String × String) → Read (List (String × String))
  | 0, _, handles => return handles
  | fuel + 1, versioned, handles => do
    match ← here with
    | .directive d =>
      skip
      match d with
      | .version major =>
        if versioned || major ≠ 1 then throw .malformed
        directives fuel true handles
      | .handle own uri =>
        if (handles.lookup own).isSome then throw .malformed
        directives fuel versioned ((own, uri) :: handles)
      | .other => directives fuel versioned handles
    | _ => return handles

/-- Past the marks that end a document. -/
def skipEnds : Nat → Read Unit
  | 0 => return ()
  | fuel + 1 => do
    if ← seesOneOf [.documentEnd] then
      skip
      skipEnds fuel

/-- The node of a document that starts with a mark. -/
def marked (fuel : Nat) : Read Nat := do
  let handles ← directives fuel false []
  modify fun r => { r with handles := handles ++ standardHandles }
  expect .documentStart
  match ← here with
  | .directive _ | .documentStart | .documentEnd | .textEnd => empty
  | _ => read fuel .block

/-- The node of the only document; none if there is no document. -/
def single? (fuel : Nat) : Read (Option Nat) := do
  let root ← match ← here with
    | .directive _ | .documentStart => some <$> marked fuel
    | .textEnd => pure none
    | _ => some <$> read fuel .block
  skipEnds fuel
  if ← seesOneOf [.textEnd] then return root
  let _ ← directives fuel false []
  throw .malformed

/-- The only document of a stream; none if there is no document. Reading a token takes at most four
nested steps. -/
def ofStream? (s : Stream) : Except Fault (Option Document) := do
  let (root, r) ← (single? (4 * s.tokens.length + 8)).run ⟨s, #[], [], standardHandles⟩
  return root.map fun root => ⟨r.nodes, root⟩

end Document

end DeclaredSchema.Yaml
