import DeclaredSchema.Declaration.OfTokens
import DeclaredSchema.Extraction
import DeclaredSchema.Synthesis

/-!
# Compiling a declaration file

The text of a file becomes declarations, these become descriptors, and these become a schema. The
first step that fails ends the compilation, and no part of a schema is returned.

Most errors are reported as faults of the file. A few are not: a number that is scanned but cannot
be read, a type with a text for a name that no type can have, and types that are nested without end.
The last is the only place where a run is cut off; how deep calls can be nested in the steps before
is left out.

## Main definitions

* `CompileError` — everything that can end a compilation
* `CompileError.isReported` — whether an error is reported as a fault of the file
* `Compilation`, `compilation`, `compile` — a compilation with its trace, and its outcome alone
-/

namespace DeclaredSchema

/-- What ends a compilation early. -/
inductive CompileError where
  | scan (label : String) (error : ScanError)
  | parse (label : String) (error : ParseError)
  | numeral (fault : NumeralFault)
  | extraction (error : ExtractionError)
  | synthesis (failure : SynthesisFailure)
  deriving DecidableEq, Repr

namespace CompileError

/-- A fault of the text of a file, with the label of the file where the message shows it. -/
def ofSyntax (label : String) : SyntaxError → CompileError
  | .scan e => scan label e
  | .parse e => parse label e
  | .numeral f => numeral f

/-- The text with which a run over types that are nested without end is cut off. -/
def endlessMessage : String := "maximum recursion depth exceeded while calling a Python object"

def message : CompileError → String
  | scan label e => s!"Syntax error in {label}: {e.message}"
  | parse label e => s!"Syntax error in {label}: {e.message}"
  | numeral f => f.message
  | extraction (.declaration e) => e.message
  | extraction .endless => endlessMessage
  | synthesis (.descriptor e) => e.message
  | synthesis (.name f) => f.message
  | synthesis .endless => endlessMessage

/-- Whether an error is reported as a fault of the file. -/
def isReported : CompileError → Bool
  | scan .. | parse .. => true
  | extraction (.declaration _) => true
  | synthesis (.descriptor _) => true
  | _ => false

end CompileError

/-- A compilation: its outcome, its trace, and the primitives that the factory was asked for. -/
structure Compilation where
  outcome : Except CompileError Schema
  events : List Event
  calls : List Primitive

/-- Makes a schema from the declarations of a file. -/
def compileUnit (unit : SourceUnit) (options : CompileOptions) : Compilation :=
  match extraction options.unionsAsEnums unit with
  | (.error e, g) => ⟨.error (.extraction e), g.allocations, []⟩
  | (.ok _, g) =>
    let extracted := .extracted g.length unit.declarations.length
    let (outcome, draft) := synthesis g ((List.range g.length).map .node) options
    ⟨outcome.mapError .synthesis, g.allocations ++ extracted :: draft.events, draft.calls⟩

/-- Compiles a text. The label stands for its file in messages. -/
def compilation (label source : String) (options : CompileOptions) : Compilation :=
  match SourceUnit.parse source with
  | .error e => ⟨.error (.ofSyntax label e), [], []⟩
  | .ok unit =>
    let c := compileUnit unit options
    { c with events := .parsed label unit.declarations.length :: c.events }

/-- The schema of a text. -/
def compile (label source : String) (options : CompileOptions) : Except CompileError Schema :=
  (compilation label source options).outcome

end DeclaredSchema
