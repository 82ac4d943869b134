import DeclaredSchema.Yaml.Atom

/-!
# Data

A document stands for data: atoms and collections, which may hold each other and themselves. So a
collection is known by its number, and what it holds is kept in a cell. The keys of mappings and the
members of sets are atoms; a list may hold pairs.

## Main definitions

* `Yaml.Datum`, `Yaml.Collection`, `Yaml.Data` — the data
* `Yaml.insertEntry`, `Yaml.lookup?` — entries of a mapping
-/

namespace DeclaredSchema.Yaml

/-- An atom, a pair, or a collection by its number. -/
inductive Datum where
  | atom (value : Atom)
  | pair (key value : Datum)
  | ref (cell : Nat)
  deriving DecidableEq, Repr

/-- What a collection holds. -/
inductive Collection where
  | list (items : List Datum)
  | set (members : List Atom)
  | mapping (entries : List (Atom × Datum))
  deriving DecidableEq, Repr

/-- A datum with the cells of all collections that it may lead to. -/
structure Data where
  root : Datum
  cells : Array Collection

namespace Data

/-- Nothing. -/
def null : Data := ⟨.atom .null, #[]⟩

/-- What the collection holds that a datum is. -/
def collection? (d : Data) : Datum → Option Collection
  | .ref cell => d.cells[cell]?
  | _ => none

/-- The entries of a mapping. -/
def entries? (d : Data) (x : Datum) : Option (List (Atom × Datum)) :=
  match d.collection? x with
  | some (.mapping entries) => some entries
  | _ => none

/-- The items of a list. -/
def items? (d : Data) (x : Datum) : Option (List Datum) :=
  match d.collection? x with
  | some (.list items) => some items
  | _ => none

end Data

/-- Entries with a further one. A later value takes the place of an earlier one under the same key. -/
def insertEntry (key : Atom) (value : Datum) : List (Atom × Datum) → List (Atom × Datum)
  | [] => [(key, value)]
  | (k, v) :: rest =>
    if k.same key then (k, value) :: rest else (k, v) :: insertEntry key value rest

/-- The value of a text as a key. -/
def lookup? (entries : List (Atom × Datum)) (key : String) : Option Datum :=
  (entries.find? fun (k, _) => k.same (.str key)).map Prod.snd

end DeclaredSchema.Yaml
