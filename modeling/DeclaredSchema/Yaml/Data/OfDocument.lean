import DeclaredSchema.Yaml.Atom.OfText
import DeclaredSchema.Yaml.Data
import DeclaredSchema.Yaml.Merge

/-!
# Data of a document

Every node is read once, by its tag. An atom is read at once. A collection is put off: it gets a cell,
and the cells are filled one after the other, in the order in which their nodes were met. So a
collection may lead to itself, and a fault in a nested collection is found after those around it.

A mapping with the tag of a scalar stands for the scalar that it gives as its default value.

## Main definitions

* `Yaml.Data.ofDocument` — what a document stands for
* `Yaml.read` — what a text stands for
-/

namespace DeclaredSchema.Yaml

/-- Data in the course of being built: the nodes, what those stand for that were met, and the cells,
each with the number of its node. -/
structure Building where
  nodes : Array Node
  made : Array (Option Datum)
  cells : Array Collection
  sources : Array Nat
  merges : Nat

namespace Building

/-- A step that builds data. -/
abbrev Build := StateT Building (Except Fault)

def node (id : Nat) : Build Node := return (← get).nodes.getD id default

/-- The text of a node that is a scalar, or gives one as its default value. -/
def scalarText (nodes : Array Node) : Nat → Nat → Except Fault CodeText
  | 0, _ => .error .malformed
  | fuel + 1, id =>
    match (nodes.getD id default).content with
    | .scalar text => .ok text
    | .sequence _ => .error .malformed
    | .mapping entries =>
      match entries.find? fun (k, _) => Merge.hasTag nodes .value k with
      | some (_, v) => scalarText nodes fuel v
      | none => .error .malformed

/-- What a node with the tag of a scalar stands for. -/
def atomOf (nodes : Array Node) (id : Nat) : Except Fault Atom := do
  let n := nodes.getD id default
  let text ← scalarText nodes (nodes.size + 1) id
  match n.tag, n.content with
  | .timestamp, .mapping _ => throw .mappedMoment
  | tag, _ => Atom.ofText tag text

/-- What a collection with a given tag holds before it is filled. -/
def blank? : Tag → Option Collection
  | .seq | .omap | .pairs => some (.list [])
  | .map => some (.mapping [])
  | .set => some (.set [])
  | _ => none

/-- What a node stands for, when it was not met before. -/
def makeNew (id : Nat) : Build Datum := do
  match blank? (← node id).tag with
  | some blank =>
    modifyGet fun b =>
      (.ref b.cells.size, { b with cells := b.cells.push blank, sources := b.sources.push id })
  | none =>
    match atomOf (← get).nodes id with
    | .ok atom => return .atom atom
    | .error fault => throw fault

/-- What a node stands for. -/
def make (id : Nat) : Build Datum := do
  match (← get).made.getD id none with
  | some datum => return datum
  | none =>
    let datum ← makeNew id
    modify fun b => { b with made := b.made.modify id fun _ => some datum }
    return datum

/-- The key that a node stands for, which has to be an atom. -/
def makeKey (id : Nat) : Build Atom := do
  match ← make id with
  | .atom key => return key
  | _ => throw .malformed

/-- The entries of a mapping, with those that it takes over. -/
def makeEntries (id : Nat) : Build (List (Atom × Datum)) := do
  let b ← get
  match (flatten b.merges id).run b.nodes with
  | .error fault => throw fault
  | .ok (_, nodes) =>
    modify fun b => { b with nodes }
    match (nodes.getD id default).content with
    | .mapping entries =>
      entries.foldlM (fun acc (k, v) => do
        let key ← makeKey k
        let value ← make v
        return insertEntry key value acc) []
    | _ => throw .malformed

/-- The pair that a mapping with a single entry stands for. -/
def makePair (id : Nat) : Build Datum := do
  match (← node id).content with
  | .mapping [(k, v)] =>
    let key ← make k
    let value ← make v
    return .pair key value
  | _ => throw .malformed

/-- What the collection of a node holds. -/
def makeCollection (id : Nat) : Build Collection := do
  let n ← node id
  match n.tag, n.content with
  | .seq, .sequence items => return .list (← items.mapM make)
  | .omap, .sequence items | .pairs, .sequence items => return .list (← items.mapM makePair)
  | .map, _ => return .mapping (← makeEntries id)
  | .set, _ => return .set ((← makeEntries id).map Prod.fst)
  | _, _ => throw .malformed

/-- Fills the cells from a given one on. -/
def fillFrom : Nat → Nat → Build Unit
  | 0, _ => return ()
  | fuel + 1, cell => do
    if let some id := (← get).sources[cell]? then
      let c ← makeCollection id
      modify fun b => { b with cells := b.cells.modify cell fun _ => c }
      fillFrom fuel (cell + 1)

end Building

open Building in
/-- What a document stands for. No node has more than one cell. -/
def Data.ofDocument (d : Document) : Except Fault Data := do
  let build : Build Datum := do
    let root ← make d.root
    fillFrom d.nodes.size 0
    return root
  let start : Building :=
    ⟨d.nodes, Array.replicate d.nodes.size none, #[], #[], entryCount d.nodes⟩
  let (root, b) ← build.run start
  return ⟨root, b.cells⟩

/-- What a text stands for; a text without a document stands for nothing at all. -/
def read (text : String) : Except Fault Data := do
  match ← Document.ofStream? (stream text) with
  | some document => Data.ofDocument document
  | none => return .null

end DeclaredSchema.Yaml
