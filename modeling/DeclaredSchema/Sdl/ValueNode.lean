import DeclaredSchema.KeyedList
import DeclaredSchema.Number.Reading
import DeclaredSchema.Sdl.Quoting
import DeclaredSchema.Value

/-!
# Values in query text

A value as it is written in a query or as a default in a schema. Numbers keep the text in which they
are written.

## Main definitions

* `ValueNode` — a written value
* `ValueNode.print` — its text
* `ValueNode.toValue` — what it stands for, when no type says otherwise
-/

namespace DeclaredSchema

/-- A value as it is written. -/
inductive ValueNode where
  | string (text : String) (block : Bool)
  | int (text : String)
  | float (text : String)
  | enum (name : String)
  | boolean (value : Bool)
  | null
  | list (items : List ValueNode)
  | object (fields : List (String × ValueNode))
  | varRef (name : String)

instance : Inhabited ValueNode := ⟨.null⟩

namespace ValueNode

/-- The texts of parts with commas between them. Parts without a text are passed over. -/
def commaList (parts : List String) : String := ", ".intercalate (parts.filter (· ≠ ""))

mutual

/-- The text of a written value. -/
def print : ValueNode → String
  | string text block =>
    String.ofList (if block then Sdl.blockString text.toList else Sdl.quotedString text.toList)
  | int text | float text => text
  | enum name => name
  | boolean value => if value then "true" else "false"
  | null => "null"
  | list items => "[" ++ commaList (printItems items) ++ "]"
  | object fields => "\x7b" ++ commaList (printFields fields) ++ "\x7d"
  | varRef name => "$" ++ name

def printItems : List ValueNode → List String
  | [] => []
  | v :: rest => v.print :: printItems rest

def printFields : List (String × ValueNode) → List String
  | [] => []
  | (key, v) :: rest => (key ++ ": " ++ v.print) :: printFields rest

end

/-- An integer that stands in a query; a text that is none is not a number. -/
def integerValue (text : String) : Value :=
  match readInteger text with
  | .ok i => .int i
  | .error _ => .float .notANumber

/-- A number with a fraction that stands in a query; a text that is none is not a number. -/
def realValue (text : String) : Value :=
  match readReal text with
  | .ok x => .float x
  | .error _ => .float .notANumber

mutual

/-- What a written value stands for, when no type says otherwise. Variables have no value here. -/
def toValue : ValueNode → Value
  | string text _ => .str text
  | int text => integerValue text
  | float text => realValue text
  | enum name => .str name
  | boolean value => .bool value
  | null => .null
  | list items => .list (toValues items)
  | object fields => .object (toFields fields [])
  | varRef _ => .null

def toValues : List ValueNode → List Value
  | [] => []
  | v :: rest => v.toValue :: toValues rest

/-- The fields of an object; of a key that occurs twice, the later field counts. -/
def toFields : List (String × ValueNode) → List (String × Value) → List (String × Value)
  | [], acc => acc
  | (key, v) :: rest, acc => toFields rest (insertByKey Prod.fst (key, v.toValue) acc)

end

end ValueNode

end DeclaredSchema
