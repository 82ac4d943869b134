import DeclaredSchema.Declaration.Scope
import DeclaredSchema.KeyedList

/-!
# What an interface inherits

The lineage of an interface is the sequence of all members that are written in it or in what it
extends: first those of its bases, in the order of the `extends` clause and each with its own
lineage, then its own. A name may occur several times. The member that counts is the last one, at
the place of the first.

An interface that reaches itself, or a base that is no interface and no alias of an object type, is
a step of the sequence too, so that the lineage says what comes before it.

A base that is extended in several ways occurs several times, so a lineage may be far longer than
its file. A walk that stops at its first failure does not need the rest, so the walk goes over the
declarations and not over the sequence.

## Main definitions

* `LineageStep` — a member, or why there is none
* `baseLineage`, `lineage` — the sequence
* `foldBase`, `foldLineage` — a walk along the sequence

## Main statements

* `foldLineage_eq_foldlM` — the walk takes the steps of the sequence in their order
-/

namespace DeclaredSchema

/-- A member of the sequence, or the reason why it does not go on. -/
inductive LineageStep where
  | member (signature : Signature)
  | inheritsItself (decl : Interface)
  | notABase (decl : Interface) (base : String)

/-- The members written in the body of a declaration. -/
def writtenMembers (name : String) (s : Site) (ps : List (Property TypeExpr)) :
    List LineageStep :=
  (s.signatures name ps).map .member

/-- The members written in the body of an interface. -/
def Interface.written (d : Interface) : List LineageStep :=
  writtenMembers d.name (Site.body d.name) d.members

variable (scope : Scope)

/-- The part of a sequence that `base` brings, which the interface `sub` extends. The interfaces on
the way here, `sub` among them, are `chain`. -/
def baseLineage (chain : List String) (sub : Interface) (base : String) : List LineageStep :=
  match _h : scope.find? base with
  | some (.interface d) =>
    if _hc : base ∈ chain then [.inheritsItself d]
    else d.bases.flatMap (fun b => baseLineage (base :: chain) d b) ++ d.written
  | some (.typeAlias d) =>
    match d.type with
    | .object ps _ => writtenMembers d.name (Site.body d.name) ps
    | _ => [.notABase sub base]
  | _ => [.notABase sub base]
termination_by scope.unseen chain
decreasing_by exact Scope.unseen_cons_lt _h _hc

/-- The sequence of an interface. -/
def lineage (d : Interface) : List LineageStep :=
  d.bases.flatMap (baseLineage scope [d.name] d) ++ d.written

/-! ## The walk -/

variable {m : Type → Type} [Monad m] {α : Type} (step : α → LineageStep → m α)

/-- Takes the steps that `base` brings one after the other, from `acc` on. -/
@[specialize]
def foldBase (chain : List String) (sub : Interface) (acc : α) (base : String) : m α :=
  match _h : scope.find? base with
  | some (.interface d) =>
    if _hc : base ∈ chain then step acc (.inheritsItself d)
    else do
      let acc ← d.bases.foldlM (fun acc b => foldBase (base :: chain) d acc b) acc
      d.written.foldlM step acc
  | some (.typeAlias d) =>
    match d.type with
    | .object ps _ => (writtenMembers d.name (Site.body d.name) ps).foldlM step acc
    | _ => step acc (.notABase sub base)
  | _ => step acc (.notABase sub base)
termination_by scope.unseen chain
decreasing_by exact Scope.unseen_cons_lt _h _hc

/-- Takes the steps of the sequence of an interface one after the other, from `acc` on. -/
@[specialize]
def foldLineage (d : Interface) (acc : α) : m α := do
  let acc ← d.bases.foldlM (foldBase scope step [d.name] d) acc
  d.written.foldlM step acc

/-- A walk along sequences that are joined is a walk along one after the other. -/
theorem foldlM_flatMap_eq {β γ : Type} [LawfulMonad m] (f : α → γ → m α) (g : β → List γ)
    (xs : List β) (acc : α) :
    (xs.flatMap g).foldlM f acc = xs.foldlM (fun acc x => (g x).foldlM f acc) acc := by
  induction xs generalizing acc with
  | nil => rfl
  | cons x rest ih => simp [List.flatMap_cons, List.foldlM_append, ih]

theorem foldBase_eq_foldlM [LawfulMonad m] (chain : List String) (sub : Interface) (acc : α)
    (base : String) :
    foldBase scope step chain sub acc base =
      (baseLineage scope chain sub base).foldlM step acc := by
  fun_induction baseLineage scope chain sub base generalizing acc with
  | case1 chain sub base d h hc => rw [foldBase]; split <;> simp_all
  | case2 chain sub base d h hc ih =>
    have hfold : foldBase scope step (base :: chain) d =
        fun acc b => (baseLineage scope (base :: chain) d b).foldlM step acc :=
      funext fun acc => funext fun b => ih b acc
    rw [foldBase, List.foldlM_append, foldlM_flatMap_eq, ← hfold]
    split <;> simp_all
  | case3 | case4 | case5 => rw [foldBase]; split <;> simp_all

/-- The walk takes the steps of the sequence in their order. -/
theorem foldLineage_eq_foldlM [LawfulMonad m] (d : Interface) (acc : α) :
    foldLineage scope step d acc = (lineage scope d).foldlM step acc := by
  have hfold : foldBase scope step [d.name] d =
      fun acc b => (baseLineage scope [d.name] d b).foldlM step acc :=
    funext fun acc => funext fun b => foldBase_eq_foldlM scope step [d.name] d acc b
  rw [foldLineage, lineage, List.foldlM_append, foldlM_flatMap_eq, hfold]

end DeclaredSchema
