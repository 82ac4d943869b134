import DeclaredSchema.Schema.Name

/-!
# Descriptors that are no part of a schema

Every cause blames one descriptor, given by its label. There are three groups of causes that are
told apart from the rest: a missing or doubled root, a type in a position where it cannot stand,
and a primitive that no scalar stands for.

## Main definitions

* `SynthesisFault`, `SynthesisError` — the causes, and one with the descriptor to blame
* `SynthesisFailure` — everything that can end a synthesis
-/

namespace DeclaredSchema

/-- Why there is no schema. -/
inductive SynthesisFault where
  | doubledRoot (name : String)
  | noRoot
  | notTypeName (name label : String)
  | nameTaken (name label owner : String)
  | unknownScalar (label : String)
  | noElement
  | noFields (label : String)
  | notFieldName (member owner : String)
  | onlyPrimitives (label : String)
  | notObjectMember (member label : String)
  | inputUnion (label : String)
  | enumMember (label tag : String)
  | enumValueName (label value : String)
  | unsupported (tag : String)
  deriving DecidableEq, Repr

/-- A cause with the label of the descriptor to blame. -/
structure SynthesisError where
  fault : SynthesisFault
  descriptor : String
  deriving DecidableEq, Repr

/-- What ends a synthesis early. A type may be made with a text that is no name at all; and a graph
may have a cycle without a record or a union on it. -/
inductive SynthesisFailure where
  | descriptor (error : SynthesisError)
  | name (fault : NameFault)
  | endless
  deriving DecidableEq, Repr

def SynthesisFault.message : SynthesisFault → String
  | doubledRoot name => s!"More than one '{name}' root found"
  | noRoot => "No 'Query' or 'Mutation' interface found among top-level declarations"
  | notTypeName name label => s!"'{name}' of {label} is not a valid GraphQL type name"
  | nameTaken name label owner => s!"Type name '{name}' of {label} is already used by {owner}"
  | unknownScalar label =>
    s!"Cannot resolve scalar for {label}: it is not a built-in primitive " ++
    "and no custom scalar matched it"
  | noElement => "Array descriptor has no element type"
  | noFields label => s!"{label} has no fields"
  | notFieldName member owner =>
    s!"Member '{member}' of {owner} is not a valid GraphQL field name"
  | onlyPrimitives label =>
    s!"{label} consists only of primitives; only unions of object types or of string literals " ++
    "can be used as output types"
  | notObjectMember member label =>
    s!"Member {member} of {label} is not an object type; union members must be object types"
  | inputUnion label =>
    s!"{label} is used as an input type, but input unions may only consist of string literals"
  | enumMember label tag => s!"Enum {label} may only contain string literals, got {tag}"
  | enumValueName label value =>
    s!"Enum {label} value '{value}' is not a valid GraphQL enum value name"
  | unsupported tag => s!"Unsupported descriptor {tag}"

def SynthesisError.message (e : SynthesisError) : String := e.fault.message

end DeclaredSchema
