import DeclaredSchema.Scalar.BuiltIn
import DeclaredSchema.Scalar.Date
import DeclaredSchema.Schema.Name

/-!
# Scalars

Besides the five built-in scalars a schema may have the date scalar, scalars that allow a fixed list
of texts, and custom scalars, of which nothing is known and which pass every value through. The user
can bring custom scalars along, and can also hand in the date scalar where another one is asked for.

## Main definitions

* `CustomScalar` — a scalar that the user hands in
* `ScalarKind` — what a scalar does with values
* `ScalarKind.serialize`, `parse`, `parseNode` — writing a value, reading a value, and reading one
  that is written in a query
-/

namespace DeclaredSchema

/-- What a scalar does with values. -/
inductive ScalarKind where
  | custom (specifiedBy : Option CodeText)
  | date
  | texts (allowed : List String)
  deriving DecidableEq, Repr

/-- A scalar that the user hands in: one of the user's own, or the date scalar, which is the same one
that dates become. Another scalar of the same name is one of the user's own. -/
inductive CustomScalar where
  | own (name : String) (description specifiedBy : Option CodeText)
  | date
  deriving DecidableEq, Repr

namespace CustomScalar

def name : CustomScalar → String
  | own name _ _ => name
  | date => Date.name

def description : CustomScalar → Option CodeText
  | own _ description _ => description
  | date => some Date.description

def kind : CustomScalar → ScalarKind
  | own _ _ specifiedBy => .custom specifiedBy
  | date => .date

/-- Makes a scalar of the user's own, unless its name is no name. -/
def make (name : String) (description specifiedBy : Option CodeText) :
    Except NameFault CustomScalar := do
  checkName name
  return own name description specifiedBy

end CustomScalar

namespace ScalarKind

/-- Passes one of the allowed texts through and refuses everything else. -/
def validate (name : String) (allowed : List String) (v : Value) : Except ValueFault Value :=
  match v with
  | .str text => if allowed.contains text then .ok v else v.refuse (.notAmong name allowed)
  | _ => v.refuse (.notAmong name allowed)

/-- Writes a value for the outside. -/
def serialize (name : String) (kind : ScalarKind) (v : Value) : Except ValueFault Value :=
  match kind with
  | custom _ => .ok v
  | date => (Date.serialize v).map .str
  | texts allowed => validate name allowed v

/-- Reads a value from the outside. -/
def parse (name : String) (kind : ScalarKind) (v : Value) : Except ValueFault Value :=
  match kind with
  | custom _ => .ok v
  | date => (Date.parse v).map fun d => .dateTime d (some 0)
  | texts allowed => validate name allowed v

/-- Reads a value that is written in a query. -/
def parseNode (name : String) (kind : ScalarKind) (node : ValueNode) : Except ValueFault Value :=
  match kind with
  | custom _ => .ok node.toValue
  | date => (Date.parseNode node).map fun d => .dateTime d (some 0)
  | texts allowed =>
    match node with
    | .string text _ => validate name allowed (.str text)
    | _ => .error (.textNode name node)

end ScalarKind

end DeclaredSchema
