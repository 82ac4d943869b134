import DeclaredSchema.Number.Reading
import DeclaredSchema.Scalar.Fault

/-!
# Built-in scalars

Every schema has five scalars. Each writes values of its own kind as they are and converts some of
the others: a truth value to a number or a text, a whole number to an integer, a number to a text, a
text that is a number to that number. Everything else is refused.

## Main definitions

* `BuiltIn` — the built-in scalars
* `BuiltIn.serialize` — writing a value
-/

namespace DeclaredSchema

/-- The scalars that every schema has. -/
inductive BuiltIn where
  | id | string | int | float | boolean
  deriving DecidableEq, Repr

namespace BuiltIn

def name : BuiltIn → String
  | id => "ID"
  | string => "String"
  | int => "Int"
  | float => "Float"
  | boolean => "Boolean"

def all : List BuiltIn := [id, string, int, float, boolean]

def ofName? (name : String) : Option BuiltIn := all.find? fun b => b.name = name

theorem ofName?_name (b : BuiltIn) : ofName? b.name = some b := by
  cases b <;> decide +kernel

/-! ## Writing -/

/-- The integers of 32 bits with a sign. -/
def isInt32 (i : Int) : Bool := -2147483648 ≤ i && i ≤ 2147483647

/-- The integer that a value stands for. -/
def integerOf? : Value → Option Int
  | .bool value => some (if value then 1 else 0)
  | .int value => some value
  | .float value => value.toInteger?
  | .str text => (readInteger text).toOption
  | _ => none

def serializeInt (v : Value) : Except ValueFault Value :=
  match integerOf? v with
  | none => v.refuseBriefly .notInteger
  | some i => if isInt32 i then .ok (.int i) else v.refuseBriefly .integerRange

/-- A number with a fraction, refused when it is not finite. -/
def finiteReal (v : Value) (x : Binary64) : Except ValueFault Value :=
  if x.isFinite then .ok (.float x) else v.refuseBriefly .notReal

/-- A truth value becomes an integer; every other number becomes one with a fraction, which is
impossible for integers beyond the largest double. -/
def serializeFloat (v : Value) : Except ValueFault Value :=
  match v with
  | .bool value => .ok (.int (if value then 1 else 0))
  | .int value =>
    match Binary64.ofInteger? value with
    | some x => .ok (.float x)
    | none => .error .realRange
  | .float value => finiteReal v value
  | .str text =>
    match readReal text with
    | .ok x => finiteReal v x
    | .error _ => v.refuseBriefly .notReal
  | _ => v.refuseBriefly .notReal

/-- An integer as a text. -/
def integerText (i : Int) : Except ValueFault Value :=
  match writeInteger? i with
  | some text => .ok (.str text)
  | none => .error .longInteger

def serializeString (v : Value) : Except ValueFault Value :=
  match v with
  | .str _ => .ok v
  | .bool value => .ok (.str (if value then "true" else "false"))
  | .int value => integerText value
  | .float value => if value.isFinite then .ok (.str value.text) else v.refuseBriefly .notText
  | _ => v.refuseBriefly .notText

/-- A finite number is true when it is not zero. -/
def serializeBoolean (v : Value) : Except ValueFault Value :=
  match v with
  | .bool _ => .ok v
  | .int value => .ok (.bool (value ≠ 0))
  | .float value =>
    if value.isFinite then .ok (.bool (!value.equalsInteger 0)) else v.refuseBriefly .notBoolean
  | _ => v.refuseBriefly .notBoolean

def serializeId (v : Value) : Except ValueFault Value :=
  match v with
  | .str _ => .ok v
  | .int value => integerText value
  | .float value =>
    match value.toInteger? with
    | some i => integerText i
    | none => v.refuseBriefly .notIdentifier
  | _ => v.refuseBriefly .notIdentifier

/-- Writes a value for the outside. -/
def serialize : BuiltIn → Value → Except ValueFault Value
  | id => serializeId
  | string => serializeString
  | int => serializeInt
  | float => serializeFloat
  | boolean => serializeBoolean

end BuiltIn

end DeclaredSchema
