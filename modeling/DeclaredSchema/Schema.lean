import DeclaredSchema.Scalar

/-!
# Schemas

A schema is a table of named types with one or two roots. Types refer to each other by name, and the
built-in scalars stand outside the table.

The types of a schema are listed in the order in which they are met when walking from the query
root and then the mutation root: a type when it is first seen, then what its fields mention, field by
field, the type of a field before those of its arguments. Two built-in scalars belong to every
schema and come last unless they are met before.

## Main definitions

* `SchemaType` — a type with its wrappings
* `InputValue`, `Field`, `TypeDefinition`, `NamedType`, `Schema` — what a schema is made of
* `Schema.typeNames` — the names of its types in the order of the walk
-/

namespace DeclaredSchema

/-- A type as a field or an argument has it. -/
inductive SchemaType where
  | named (name : String)
  | list (element : SchemaType)
  | nonNull (inner : SchemaType)
  deriving DecidableEq, Repr

instance : Inhabited SchemaType := ⟨.named ""⟩

namespace SchemaType

/-- The type in schema text. -/
def text : SchemaType → String
  | named name => name
  | list element => "[" ++ element.text ++ "]"
  | nonNull inner => inner.text ++ "!"

/-- The name inside the wrappings. -/
def baseName : SchemaType → String
  | named name => name
  | list element => element.baseName
  | nonNull inner => inner.baseName

/-- The type whose values are never absent. -/
def required : SchemaType → SchemaType
  | nonNull inner => nonNull inner
  | t => nonNull t

/-- The type as it is, or without absent values. -/
def withNull (nullable : Bool) (t : SchemaType) : SchemaType := if nullable then t else t.required

end SchemaType

/-- An argument, or a field of an input type. -/
structure InputValue where
  name : String
  type : SchemaType
  default : Option Literal
  description : Option String
  deriving DecidableEq, Repr

/-- A field of an object type. -/
structure Field where
  name : String
  type : SchemaType
  arguments : List InputValue
  description : Option String
  deriving DecidableEq, Repr

/-- What a type of a schema is. -/
inductive TypeDefinition where
  | scalar (kind : ScalarKind)
  | object (fields : List Field)
  | inputObject (fields : List InputValue)
  | union (members : List String)
  | enumeration (values : List String)
  deriving DecidableEq, Repr

namespace TypeDefinition

def isScalar : TypeDefinition → Bool
  | scalar _ => true
  | _ => false

def isObject : TypeDefinition → Bool
  | object _ => true
  | _ => false

/-- The names that a definition mentions, in the order of the walk. -/
def mentions : TypeDefinition → List String
  | object fields =>
    fields.flatMap fun f => f.type.baseName :: f.arguments.map fun a => a.type.baseName
  | inputObject fields => fields.map fun f => f.type.baseName
  | union members => members
  | _ => []

end TypeDefinition

/-- A type of the table. -/
structure NamedType where
  name : String
  description : Option CodeText
  definition : TypeDefinition
  deriving DecidableEq, Repr

/-- A schema: its roots and its types. -/
structure Schema where
  query : Option String
  mutation : Option String
  types : List NamedType
  deriving DecidableEq, Repr

/-- The entry of a name in a table of types. -/
def findType? (types : List NamedType) (name : String) : Option NamedType :=
  types.find? fun t => t.name = name

namespace Schema

def type? (s : Schema) (name : String) : Option NamedType := findType? s.types name

/-- How many types of a table are not among the names `seen`. -/
def unseen (types : List NamedType) (seen : List String) : Nat :=
  types.countP fun t => !seen.contains t.name

theorem unseen_concat_le (types : List NamedType) (seen : List String) (name : String) :
    unseen types (seen ++ [name]) ≤ unseen types seen := by
  unfold unseen
  refine List.countP_mono_left fun t _ h => ?_
  simp at h ⊢
  exact h.1

theorem unseen_concat_lt {types : List NamedType} {seen : List String} {name : String}
    {t : NamedType} (hfind : findType? types name = some t) (hnew : name ∉ seen) :
    unseen types (seen ++ [name]) < unseen types seen := by
  have hname : t.name = name := by simpa using List.find?_some hfind
  have hmem : t ∈ types := List.mem_of_find?_eq_some hfind
  clear hfind
  induction types with
  | nil => cases hmem
  | cons u rest ih =>
    have hrest := unseen_concat_le rest seen name
    simp only [unseen, List.countP_cons] at ih hrest ⊢
    rcases List.mem_cons.1 hmem with rfl | hmem
    · have hold : seen.contains t.name = false := by simpa [hname] using hnew
      have hadd : (seen ++ [name]).contains t.name = true := by simp [hname]
      rw [hold, hadd]
      exact Nat.lt_succ_of_le hrest
    · refine Nat.add_lt_add_of_lt_of_le (ih hmem) ?_
      split
      · next hkept => exact Nat.le_of_eq (if_pos (by simp at hkept ⊢; exact hkept.1)).symm
      · exact Nat.zero_le _

/-- The walk: names to visit, and those seen so far in order. -/
def walk (types : List NamedType) (pending seen : List String) : List String :=
  match pending with
  | [] => seen
  | name :: rest =>
    if _hs : name ∈ seen then walk types rest seen
    else
      match _ht : findType? types name with
      | none => walk types rest (seen ++ [name])
      | some t => walk types (t.definition.mentions ++ rest) (seen ++ [name])
termination_by (unseen types seen, pending.length)
decreasing_by
  · exact Prod.Lex.right _ (by simp)
  · rcases Nat.lt_or_eq_of_le (unseen_concat_le types seen name) with h | h
    · exact Prod.Lex.left _ _ h
    · rw [h]
      exact Prod.Lex.right _ (by simp)
  · exact Prod.Lex.left _ _ (unseen_concat_lt _ht _hs)

/-- The roots, the query before the mutation. -/
def roots (s : Schema) : List String := s.query.toList ++ s.mutation.toList

/-- The names of all types of a schema, in the order of the walk. -/
def typeNames (s : Schema) : List String :=
  walk s.types (s.roots ++ [BuiltIn.boolean.name, BuiltIn.string.name]) []

end Schema

end DeclaredSchema
