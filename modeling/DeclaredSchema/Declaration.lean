import DeclaredSchema.Literal
import DeclaredSchema.Token

/-!
# Declarations

What a declaration file says, as written: interfaces, type aliases and enumerations, with the type
expressions of their members. Nothing is resolved here; a name is only a name.

## Main definitions

* `TypeExpr` — type expressions
* `Property`, `Parameter` — members of object types, and parameters of function types
* `Interface`, `Alias`, `Enumeration`, `Declaration` — top-level declarations
* `SourceUnit` — one file
-/

namespace DeclaredSchema

/-- The types that are named by words of the language itself. -/
inductive TypeKeyword where
  | string | number | boolean | null | undefined | any | unknown | void | never
  deriving DecidableEq, Repr

namespace TypeKeyword

def text : TypeKeyword → String
  | string => "string"
  | number => "number"
  | boolean => "boolean"
  | null => "null"
  | undefined => "undefined"
  | any => "any"
  | unknown => "unknown"
  | void => "void"
  | never => "never"

/-- The keyword types that are written as identifiers; the two others are words of their own. -/
def ofIdentifier? (word : String) : Option TypeKeyword :=
  [string, number, boolean, any, unknown, void, never].find? fun k => k.text = word

/-- The keyword types without a value besides the absent one. -/
def isNullish : TypeKeyword → Bool
  | null | undefined => true
  | _ => false

end TypeKeyword

/-- A member of an object type. A method is a member whose type is a function type. -/
structure Property (τ : Type) where
  name : String
  type : τ
  optional : Bool
  readonly : Bool
  doc : Option String
  position : Position

/-- A parameter of a function type. -/
structure Parameter (τ : Type) where
  name : String
  type : τ
  optional : Bool

/-- A type expression. References and object types know where they are written. -/
inductive TypeExpr where
  | keyword (word : TypeKeyword)
  | literal (value : Literal)
  | reference (name : String) (arguments : List TypeExpr) (position : Position)
  | array (element : TypeExpr)
  | union (members : List TypeExpr)
  | object (members : List (Property TypeExpr)) (position : Position)
  | function (parameters : List (Parameter TypeExpr)) (result : TypeExpr)

instance : Inhabited TypeExpr := ⟨.keyword .any⟩

namespace TypeExpr

/-- Whether the expression is the word `null` or `undefined`. -/
def isNullish : TypeExpr → Bool
  | keyword word => word.isNullish
  | _ => false

/-- The value of a literal type. -/
def literal? : TypeExpr → Option Literal
  | literal value => some value
  | _ => none

/-- The text of a string literal type. -/
def text? (e : TypeExpr) : Option String := e.literal?.bind Literal.text?

def isUnion : TypeExpr → Bool
  | union _ => true
  | _ => false

def isObject : TypeExpr → Bool
  | object .. => true
  | _ => false

end TypeExpr

/-- An interface with the names of those that it extends. -/
structure Interface where
  name : String
  bases : List String
  members : List (Property TypeExpr)
  doc : Option String
  position : Position

/-- A name for a type expression. -/
structure Alias where
  name : String
  type : TypeExpr
  doc : Option String
  position : Position

/-- A member of an enumeration; its value is a text or a number, if it is given. -/
structure EnumEntry where
  name : String
  value : Option Literal
  doc : Option String

structure Enumeration where
  name : String
  members : List EnumEntry
  doc : Option String
  position : Position

/-- A top-level declaration. -/
inductive Declaration where
  | interface (decl : Interface)
  | typeAlias (decl : Alias)
  | enumeration (decl : Enumeration)

namespace Declaration

def name : Declaration → String
  | interface d => d.name
  | typeAlias d => d.name
  | enumeration d => d.name

/-- Where the declared name stands. -/
def position : Declaration → Position
  | interface d => d.position
  | typeAlias d => d.position
  | enumeration d => d.position

end Declaration

/-- The names that are brought in from another file. They are recorded and not looked up. -/
structure Import where
  source : String
  names : List String
  deriving DecidableEq, Repr

/-- One file: what it imports and what it declares, each in the order of the text. -/
structure SourceUnit where
  imports : List Import
  declarations : List Declaration

end DeclaredSchema
