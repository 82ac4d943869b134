import DeclaredSchema.Token
import DeclaredSchema.Literal

/-!
# Declarations that have no meaning

Each cause says which declaration or member is to blame. `owner` stands for the place of the type in
question: a declaration, a member, or a parameter. Some of them have a place in the text.

## Main definitions

* `DeclarationFault` — the causes
* `DeclarationError` — a cause, the name to blame, and the place
-/

namespace DeclaredSchema

/-- Why a declaration has no meaning. -/
inductive DeclarationFault where
  | duplicate (name : String)
  | inheritsItself (name : String)
  | notABase (name base : String)
  | enumValue (name member : String)
  | mixedLiterals (name : String)
  | defaultMismatch (value : Literal) (owner type : String)
  | manyParameters (owner : String) (count : Nat)
  | parameterNotObject (name owner : String)
  | malformedDefault (owner : String)
  | noAlternative (owner : String)
  | aliasOfItself (name : String)
  | unsupportedKeyword (word owner : String)
  | functionType (owner : String)
  | arrayArguments (name owner : String)
  | misplacedDefault (owner : String)
  | unknownGeneric (name owner : String)
  | notGeneric (name owner : String)
  | unresolvedAlias (name owner : String)
  deriving DecidableEq, Repr

/-- A cause, the name of the declaration or member to blame, and the place if it has one. -/
structure DeclarationError where
  fault : DeclarationFault
  declaration : String
  position : Option Position
  deriving DecidableEq, Repr

def DeclarationFault.message : DeclarationFault → String
  | duplicate name => s!"Duplicate declaration '{name}'"
  | inheritsItself name => s!"Interface '{name}' inherits from itself"
  | notABase name base =>
    s!"Interface '{name}' extends '{base}', which is not an interface " ++
    "or object type declared in this file"
  | enumValue name member =>
    s!"Enum '{name}' member '{member}' must be initialized with a string literal"
  | mixedLiterals name =>
    s!"Type alias '{name}' mixes string and non-string literals and cannot be an enum"
  | defaultMismatch value owner type =>
    s!"Default value {value.written} of '{owner}' does not match its type {type}"
  | manyParameters owner count =>
    s!"Resolver '{owner}' declares {count} parameters; " ++
    "only a single argument object is supported"
  | parameterNotObject name owner =>
    s!"Parameter '{name}' of resolver '{owner}' must be an object type"
  | malformedDefault owner =>
    s!"Malformed default-value annotation on '{owner}': expected Default<Type, literal>"
  | noAlternative owner => s!"Type of '{owner}' has no non-null alternative"
  | aliasOfItself name => s!"Type alias '{name}' refers to itself"
  | unsupportedKeyword word owner => s!"Unsupported type '{word}' for '{owner}'"
  | functionType owner =>
    s!"Function type of '{owner}' is only supported as the type of an interface member"
  | arrayArguments name owner => s!"'{name}' of '{owner}' expects one type argument"
  | misplacedDefault owner =>
    s!"'Default' of '{owner}' is only allowed as the outermost type of a member"
  | unknownGeneric name owner => s!"Unknown generic type '{name}' for '{owner}'"
  | notGeneric name owner => s!"'{name}' of '{owner}' does not take type arguments"
  | unresolvedAlias name owner => s!"Type alias '{name}' of '{owner}' could not be resolved"

def DeclarationError.message (e : DeclarationError) : String :=
  (match e.position with
    | some p => p.lead
    | none => "") ++ e.fault.message

end DeclaredSchema
