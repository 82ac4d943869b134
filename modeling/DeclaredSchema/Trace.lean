import DeclaredSchema.Descriptor.Label

/-!
# The trace of a run

What a run did, step by step, for the log. A trace is data that the run returns, also when it fails.

## Main definitions

* `Event` — one step worth a line of the log
* `Event.stage`, `Event.message` — the part of the program that took it, and its text
* `Graph.allocations` — the steps in which a table of descriptors was built
-/

namespace DeclaredSchema

/-- One step of a run. Descriptors are given by their tags. -/
inductive Event where
  | compiling (path : String)
  | parsed (label : String) (declarations : Nat)
  | allocated (tag : String)
  | extracted (descriptors declarations : Nat)
  | resolvingRoot (name : String)
  | reusing (type tag mode : String)
  | named (tag name : String)
  | synthesized (types : Nat)
  deriving DecidableEq, Repr

namespace Event

/-- The part of the program that takes the step. -/
def stage : Event → String
  | compiling _ | parsed .. => "build"
  | allocated _ | extracted .. => "extractor"
  | resolvingRoot _ | reusing .. | named .. | synthesized _ => "synthesizer"

def message : Event → String
  | compiling path => s!"Compiling {path}"
  | parsed label declarations => s!"Parsed {label}: {declarations} declarations"
  | allocated tag => s!"Allocated {tag}"
  | extracted descriptors declarations =>
    s!"Extracted {descriptors} descriptors from {declarations} declarations"
  | resolvingRoot name => s!"Resolving root {name}"
  | reusing type tag mode => s!"Reusing {type} for {tag} in {mode} mode"
  | named tag name => s!"Named {tag} {name}"
  | synthesized types => s!"Synthesized {types} named types"

end Event

/-- Descriptors enter the table in the order of their slots. -/
def Graph.allocations (g : Graph) : List Event := g.map fun d => .allocated d.tag

end DeclaredSchema
