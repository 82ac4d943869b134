import DeclaredSchema.Number.Shortest
import DeclaredSchema.Text.Quoted

/-!
# Literal values

The values that a declaration can write down: texts, whole numbers of any size, numbers with a
fraction, and the two truth values. They occur as literal types and as default values.

## Main definitions

* `Literal`, `Literal.kind` — a literal value, and whether it is a text, a number or a truth value
* `Literal.agrees` — whether two literals of one kind have one value; `1` and `1.0` agree
* `Literal.written` — a literal as declarations write it
* `Literal.display` — a literal as messages about values show it
-/

namespace DeclaredSchema

/-- A value that a declaration can write down. -/
inductive Literal where
  | str (text : String)
  | int (value : Int)
  | float (value : Binary64)
  | bool (value : Bool)
  deriving DecidableEq, Repr, Inhabited

/-- The three kinds of literals. -/
inductive LiteralKind where
  | string
  | number
  | boolean
  deriving DecidableEq, Repr

/-- The keyword of the type that holds all literals of a kind. -/
def LiteralKind.keyword : LiteralKind → String
  | string => "string"
  | number => "number"
  | boolean => "boolean"

namespace Literal

def kind : Literal → LiteralKind
  | str _ => .string
  | int _ | float _ => .number
  | bool _ => .boolean

/-- The text of a string literal. -/
def text? : Literal → Option String
  | str text => some text
  | _ => none

def isInteger : Literal → Bool
  | int _ => true
  | _ => false

/-- Whether two literals have one kind and one value. Numbers are compared by value, whether
written with a fraction or not. -/
def agrees : Literal → Literal → Bool
  | str a, str b => a == b
  | bool a, bool b => a == b
  | int a, int b => a == b
  | int a, float x => x.equalsInteger a
  | float x, int a => x.equalsInteger a
  | float x, float y => x.numericallyEqual y
  | _, _ => false

/-- A literal as declarations write it, with a text between single quotes and not escaped. -/
def written : Literal → String
  | str text => "'" ++ text ++ "'"
  | int value => toString value
  | float value => value.text
  | bool value => if value then "true" else "false"

/-- A literal as messages about values show it. -/
def display : Literal → String
  | str text => Text.quote text
  | int value => toString value
  | float value => value.text
  | bool value => if value then "True" else "False"

theorem text?_eq_some_iff {v : Literal} {s : String} : v.text? = some s ↔ v = str s := by
  cases v <;> simp [text?]

theorem kind_eq_of_agrees {a b : Literal} (h : a.agrees b = true) : a.kind = b.kind := by
  cases a <;> cases b <;> first | rfl | simp [agrees] at h

end Literal

end DeclaredSchema
