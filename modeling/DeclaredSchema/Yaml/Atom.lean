import DeclaredSchema.Number.Binary64
import DeclaredSchema.Yaml.Moment

/-!
# Atoms

Atoms are what scalars stand for. They are the only keys of mappings: equal keys count once, and
numbers and truth values are compared by value.

## Main definitions

* `Yaml.Atom` — the atoms
* `Yaml.Atom.same`, `Yaml.Atom.before` — equality and order of keys
-/

namespace DeclaredSchema.Yaml

/-- What a scalar stands for. -/
inductive Atom where
  | null
  | bool (value : Bool)
  | int (value : Int)
  | float (value : Binary64)
  | str (text : CodeText)
  | bytes (values : List Nat)
  | moment (value : Moment)
  deriving DecidableEq, Repr

namespace Atom

/-- The value of a number, as a double that need not have the usual form. -/
def number? : Atom → Option Binary64
  | bool value => some (.finite false (if value then 1 else 0) 0)
  | int value => some (.finite (value < 0) value.natAbs 0)
  | float value => some value
  | _ => none

/-- Whether two keys are equal. -/
def same (a b : Atom) : Bool :=
  match a, b with
  | null, null => true
  | str s, str t => s = t
  | bytes s, bytes t => s = t
  | moment m, moment n => m.same n
  | _, _ =>
    match a.number?, b.number? with
    | some (.finite s m e), some (.finite s' m' e') =>
      !(Binary64.finite s m e).lessThan (.finite s' m' e') &&
        !(Binary64.finite s' m' e').lessThan (.finite s m e)
    | some x, some y => x.numericallyEqual y
    | _, _ => false

/-- The name of the sort of an atom. -/
def sort : Atom → String
  | null => "NoneType"
  | bool _ => "bool"
  | int _ => "int"
  | float _ => "float"
  | str _ => "str"
  | bytes _ => "bytes"
  | moment m => m.sort

/-- Why two keys have no order between them: they are of different sorts, or moments of two sorts. -/
inductive Disorder where
  | sorts (left right : String)
  | moments (disorder : Moment.Disorder)
  deriving DecidableEq, Repr

def Disorder.message : Disorder → String
  | sorts left right => s!"'<' not supported between instances of '{left}' and '{right}'"
  | moments d => d.message

/-- Whether one key comes before another. -/
def before (a b : Atom) : Except Disorder Bool :=
  match a, b with
  | str s, str t => .ok (s.before t)
  | bytes s, bytes t => .ok (s < t)
  | moment m, moment n => (m.before n).mapError .moments
  | _, _ =>
    match a.number?, b.number? with
    | some x, some y => .ok (x.lessThan y)
    | _, _ => .error (.sorts a.sort b.sort)

end Atom

end DeclaredSchema.Yaml
