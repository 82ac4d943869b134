import DeclaredSchema.Literal

/-!
# Type descriptors

What a set of declarations means, before it is a schema: records, unions and enumerations that refer
to each other, possibly in cycles. The descriptors of a run stand in a table, and a type refers to
one by its slot in the table. Primitive types, arrays and dates have no identity of their own and
are written out where they are used.

## Main definitions

* `Primitive`, `TypeRef` — types as they are used
* `Member` — a member of a record, or an argument
* `Shape`, `Descriptor` — what stands in the table
* `Graph` — the table
-/

namespace DeclaredSchema

/-- A type without parts. Its name is that of a built-in type or whatever was referred to; `raw` is
how the type was written at the place of its use. -/
structure Primitive where
  name : String
  raw : String
  literal : Option Literal
  deriving DecidableEq, Repr

/-- The text of a string literal type. -/
def Primitive.text? (p : Primitive) : Option String := p.literal.bind Literal.text?

/-- A type as it is used. Graphs made by hand may lack an element type or hold something that is no
type at all. -/
inductive TypeRef where
  | primitive (p : Primitive)
  | array (element : TypeRef)
  | untypedArray
  | date
  | node (slot : Nat)
  | foreign (text : String)
  deriving DecidableEq, Repr

instance : Inhabited TypeRef := ⟨.date⟩

namespace TypeRef

def primitive? : TypeRef → Option Primitive
  | primitive p => some p
  | _ => none

/-- The text of a string literal type. -/
def text? (r : TypeRef) : Option String := r.primitive?.bind Primitive.text?

end TypeRef

/-- A member of a record, or an argument. The arguments of a member are the members of another
record, given by its slot. -/
structure Member where
  name : String
  type : TypeRef
  doc : Option String
  optional : Bool
  nullableType : Bool
  default : Option Literal
  arguments : Option Nat
  deriving DecidableEq, Repr

/-- Whether a member may be absent or its type admits the absent value. -/
def Member.nullable (m : Member) : Bool := m.optional || m.nullableType

/-- What a descriptor describes. An inline record is known by its location; a union may have no
name. -/
inductive Shape where
  | record (name : String) (doc : Option String) (members : List Member)
  | inlineRecord (location : String) (doc : Option String) (members : List Member)
  | union (name : Option String) (doc : Option String) (alternatives : List TypeRef)
  | enumeration (name : String) (doc : Option String) (members : List TypeRef)
  deriving DecidableEq, Repr

namespace Shape

/-- The members of a record. -/
def members? : Shape → Option (List Member)
  | record _ _ members | inlineRecord _ _ members => some members
  | _ => none

/-- The members of a record, and none of anything else. -/
def members (s : Shape) : List Member := s.members?.getD []

/-- The same shape with the members of a record replaced. -/
def withMembers (members : List Member) : Shape → Shape
  | record name doc _ => record name doc members
  | inlineRecord location doc _ => inlineRecord location doc members
  | s => s

/-- The same shape with one more alternative of a union, in front of the others. -/
def addAlternative (r : TypeRef) : Shape → Shape
  | union name doc alternatives => union name doc (r :: alternatives)
  | s => s

/-- The same shape with the alternatives of a union turned round. -/
def reverseAlternatives : Shape → Shape
  | union name doc alternatives => union name doc alternatives.reverse
  | s => s

/-- The same shape with the members of an enumeration replaced. -/
def withValues (values : List TypeRef) : Shape → Shape
  | enumeration name doc _ => enumeration name doc values
  | s => s

end Shape

/-- A shape with the number under which messages show it. -/
structure Descriptor where
  id : Int
  shape : Shape
  deriving DecidableEq, Repr

/-- A table of descriptors. -/
abbrev Graph := List Descriptor

namespace Graph

/-- The shape that a type refers to. -/
def shape? (g : Graph) : TypeRef → Option Shape
  | .node slot => g[slot]?.map Descriptor.shape
  | _ => none

/-- The members of the record in a slot. -/
def membersAt (g : Graph) (slot : Nat) : List Member :=
  match g[slot]? with
  | some d => d.shape.members
  | none => []

/-- Whether a type refers to a record. -/
def isRecord (g : Graph) (r : TypeRef) : Bool := ((g.shape? r).bind Shape.members?).isSome

/-- The table with the shape in one slot changed. -/
def update (g : Graph) (slot : Nat) (change : Shape → Shape) : Graph :=
  List.modify g slot fun d => { d with shape := change d.shape }

@[simp] theorem length_update (g : Graph) (slot : Nat) (change : Shape → Shape) :
    (g.update slot change).length = g.length := by
  simp [update]

end Graph

end DeclaredSchema
