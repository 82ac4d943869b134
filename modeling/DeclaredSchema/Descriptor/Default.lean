import DeclaredSchema.Descriptor

/-!
# Which defaults a type admits

A default value is a literal, so only types that have literals among their values admit one: a
primitive of the literal's kind, an enumeration or a union of texts that holds the text, a literal
type that has the value. A primitive that is not known here may be any scalar and admits every
literal.

## Main definitions

* `Primitive.admits` — the literals that a primitive admits
* `Graph.admits` — the literals that a type admits, by the table as it stands
-/

namespace DeclaredSchema

/-- The raw name of integers. -/
def integerName : String := "Int"

/-- The raw name of identifiers, which are texts or integers. -/
def identifierName : String := "ID"

def Primitive.admits (p : Primitive) (v : Literal) : Bool :=
  match p.literal with
  | some own => v.kind.keyword == p.name && v.agrees own
  | none =>
    if p.raw = integerName then v.isInteger
    else if p.raw = identifierName then v.kind == .string || v.isInteger
    else if ["string", "number", "boolean"].contains p.name then v.kind.keyword == p.name
    else true

/-- Whether `v` is one of the given texts. -/
def isTextAmong (texts : List (Option String)) (v : Literal) : Bool :=
  match v.text? with
  | some s => texts.contains (some s)
  | none => false

/-- Whether `v` can be the default of something of type `r`. -/
def Graph.admits (g : Graph) (r : TypeRef) (v : Literal) : Bool :=
  match r with
  | .primitive p => p.admits v
  | .node slot =>
    match g[slot]?.map Descriptor.shape with
    | some (.enumeration _ _ members) => isTextAmong (members.map TypeRef.text?) v
    | some (.union _ _ alternatives) =>
      let texts := alternatives.map TypeRef.text?
      texts.all Option.isSome && isTextAmong texts v
    | _ => false
  | _ => false

end DeclaredSchema
