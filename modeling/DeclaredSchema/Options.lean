import DeclaredSchema.Descriptor
import DeclaredSchema.Scalar

/-!
# Options of a compilation

The user can hand in scalars in two ways: a list of them, which are found by name, and a function
that is asked for each primitive that no scalar of the list fits. A further option makes unions of
texts enumerations.

## Main definitions

* `CompileOptions` — the options
* `CompileOptions.scalar?` — a scalar of the list by name
-/

namespace DeclaredSchema

/-- What a user can choose. The factory may fail to make a scalar because of its name. -/
structure CompileOptions where
  scalars : List CustomScalar
  factory : Option (Primitive → Except NameFault (Option CustomScalar))
  unionsAsEnums : Bool

namespace CompileOptions

/-- No scalars of the user's own, and unions of texts stay unions. -/
def standard : CompileOptions := ⟨[], none, false⟩

/-- The scalar of a name; of several, the last. -/
def scalar? (o : CompileOptions) (name : String) : Option CustomScalar :=
  o.scalars.reverse.find? fun s => s.name = name

end CompileOptions

end DeclaredSchema
