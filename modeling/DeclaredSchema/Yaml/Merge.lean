import DeclaredSchema.Yaml.Node

/-!
# Entries taken over

A mapping may take over the entries of others: under a key with the tag of such a merge stands one
mapping or a sequence of mappings. Before the mapping is read, the merges in it are replaced by the
entries they bring. These come before its own entries, and of several mappings the first comes last, so
that later entries override earlier ones as they should.

The mappings that are taken over are changed in the same way, for good. A mapping may even take over
its own entries.

A key with the tag of a default value is an ordinary text in a mapping that is read as one.

## Main definitions

* `Yaml.flatten` — a mapping without merges
-/

namespace DeclaredSchema.Yaml

/-- A step that changes nodes. -/
abbrev Merge := StateT (Array Node) (Except Fault)

namespace Merge

/-- The content of a node. -/
def content (id : Nat) : Merge Content := return ((← get).getD id default).content

/-- The entries of a node that is a mapping. -/
def entries (id : Nat) : Merge (List (Nat × Nat)) := do
  match ← content id with
  | .mapping entries => return entries
  | _ => throw .malformed

def setEntries (id : Nat) (entries : List (Nat × Nat)) : Merge Unit :=
  modify fun nodes => nodes.modify id fun n => { n with content := .mapping entries }

/-- Whether a node has a tag. -/
def hasTag (nodes : Array Node) (tag : Tag) (id : Nat) : Bool := (nodes.getD id default).tag = tag

/-- Entries cut at the first merge: those before it, what is merged, and those behind it. -/
def cutAtMerge (nodes : Array Node) :
    List (Nat × Nat) → Option (List (Nat × Nat) × Nat × List (Nat × Nat))
  | [] => none
  | (k, v) :: rest =>
    if hasTag nodes .merge k then some ([], v, rest)
    else (cutAtMerge nodes rest).map fun (before, merged, after) => ((k, v) :: before, merged, after)

/-- Makes ordinary texts of the keys that have the tag of a default value. -/
def plainKeys (id : Nat) : Merge Unit := do
  for (k, _) in ← entries id do
    modify fun nodes =>
      if hasTag nodes .value k then nodes.modify k fun n => { n with tag := .str } else nodes

mutual

/-- Takes the merges out of a mapping, and gives the entries that they bring. -/
def takeOut : Nat → Nat → Merge (List (Nat × Nat))
  | 0, _ => throw .malformed
  | fuel + 1, id => do
    match cutAtMerge (← get) (← entries id) with
    | none => return []
    | some (before, merged, after) =>
      setEntries id (before ++ after)
      let first ← entriesOf fuel merged
      let others ← takeOut fuel id
      return first ++ others

/-- The entries that a merge brings. -/
def entriesOf : Nat → Nat → Merge (List (Nat × Nat))
  | 0, _ => throw .malformed
  | fuel + 1, id => do
    match ← content id with
    | .mapping _ =>
      flattenWith fuel id
      entries id
    | .sequence items =>
      let taken ← items.mapM fun item => do
        match ← content item with
        | .mapping _ =>
          flattenWith fuel item
          entries item
        | _ => throw .malformed
      return taken.reverse.flatten
    | .scalar _ => throw .malformed

/-- Replaces the merges in a mapping by the entries that they bring. -/
def flattenWith : Nat → Nat → Merge Unit
  | 0, _ => throw .malformed
  | fuel + 1, id => do
    let taken ← takeOut fuel id
    plainKeys id
    setEntries id (taken ++ (← entries id))

end

end Merge

/-- The number of entries of all mappings. -/
def entryCount (nodes : Array Node) : Nat :=
  nodes.foldl (fun count n =>
    match n.content with
    | .mapping entries => count + entries.length
    | _ => count) 0

/-- Replaces the merges in a mapping by the entries that they bring. A merge is taken out before what it
brings is looked at, in at most three nested steps, so their number bounds the depth. -/
def flatten (merges id : Nat) : Merge Unit := Merge.flattenWith (3 * merges + 3) id

end DeclaredSchema.Yaml
