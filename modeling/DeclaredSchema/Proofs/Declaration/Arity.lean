import DeclaredSchema.Proofs.Declaration.File
import DeclaredSchema.Proofs.Declaration.Rendering

/-!
# Unions of a file have alternatives

A type without a bar is no union, so each union that is read has at least two members. This holds
of every union in a file, however deep it stands within other types.

## Main definitions

* `TypeExpr.IsPlural` — a union has at least two members
* `Scope.IsPlural` — all unions within declarations do

## Main results

* `Derives.isPlural` — the types of the grammar have no other unions
* `isPlural_of_parse` — and neither have files
-/

namespace DeclaredSchema

/-- If the expression is a union, then one of at least two members. -/
def TypeExpr.IsPlural : TypeExpr → Prop
  | .union members => 2 ≤ members.length
  | _ => True

/-- All unions within the bodies of the declarations have at least two members. -/
def Scope.IsPlural (scope : Scope) : Prop :=
  ∀ d ∈ scope, ∀ e ∈ d.body?, e.All TypeExpr.IsPlural

namespace Grammar

variable {settled : Bool} {p : Nonterminal} {ts rest : List Token} {e : TypeExpr}
  {es : List TypeExpr} {doc : Option String} {d : Declaration}

/-- All unions within what a phrase means have at least two members. -/
def Nonterminal.IsPlural : (p : Nonterminal) → p.Meaning → Prop
  | .type, e | .suffixed, e | .primary, e | .arrow, e => e.All TypeExpr.IsPlural
  | .alternatives, es | .arguments, es | .furtherArguments, es => ∀ e ∈ es, e.All TypeExpr.IsPlural
  | .body, ms | .members, ms => ∀ m ∈ ms, m.type.All TypeExpr.IsPlural
  | .member, m => m.type.All TypeExpr.IsPlural
  | .parameters, ps | .entries, ps => ∀ p ∈ ps, p.type.All TypeExpr.IsPlural

theorem unionOf_isPlural (h : e.All TypeExpr.IsPlural) (h' : ∀ e ∈ es, e.All TypeExpr.IsPlural) :
    (unionOf e es).All TypeExpr.IsPlural := by
  cases es with
  | nil => exact h
  | cons e' es =>
    exact TypeExpr.all_union.mpr ⟨Nat.le_add_left 2 es.length, List.forall_mem_cons.mpr ⟨h, h'⟩⟩

theorem arrays_isPlural (h : e.All TypeExpr.IsPlural) (k : Nat) :
    (arrays k e).All TypeExpr.IsPlural := by
  induction k generalizing e with
  | zero => exact h
  | succ k ih => exact ih (TypeExpr.all_array.mpr ⟨trivial, h⟩)

/-- **A union that is written down** has at least two members. -/
theorem Derives.isPlural {m : p.Meaning} (h : Derives settled p ts m rest) : p.IsPlural m := by
  induction h with
  | type _ _ _ ih ih' => exact unionOf_isPlural ih ih'
  | onlyArrow _ _ _ ih | freeArrow _ _ ih | parens _ _ _ ih => exact ih
  | noAlternative | noArguments | noArgument | noMember | noEntry => exact nofun
  | alternative _ _ _ ih ih' | arguments _ _ _ _ ih ih' | argument _ _ _ ih ih'
  | members _ _ _ ih ih' => exact List.forall_mem_cons.mpr ⟨ih, ih'⟩
  | lastArrow _ _ _ ih => exact List.forall_mem_singleton.mpr ih
  | suffixed _ _ ih => exact arrays_isPlural ih _
  | arrow _ _ _ ih ih' => exact TypeExpr.all_function.mpr ⟨trivial, ih', ih⟩
  | object _ ih => exact TypeExpr.all_object.mpr ⟨trivial, ih⟩
  | string | number | truth | falsity => exact TypeExpr.all_literal.mpr trivial
  | null | undefined | keyword => exact TypeExpr.all_keyword.mpr trivial
  | reference _ _ _ _ ih => exact TypeExpr.all_reference.mpr ⟨trivial, ih⟩
  | body _ _ _ ih | parameters _ _ _ ih => exact ih
  | property _ _ _ _ ih => exact ih
  | method _ _ _ _ _ ih ih' => exact TypeExpr.all_function.mpr ⟨trivial, ih', ih⟩
  | lastEntry _ _ _ _ ih => exact List.forall_mem_singleton.mpr ih
  | entries _ _ _ _ _ _ ih ih' => exact List.forall_mem_cons.mpr ⟨ih, ih'⟩

theorem Declares.isPlural (h : Declares settled doc ts d rest) :
    ∀ e ∈ d.body?, e.All TypeExpr.IsPlural := by
  cases h with
  | interface _ _ _ h =>
    rintro _ ⟨⟩
    exact TypeExpr.all_object.mpr ⟨trivial, h.isPlural⟩
  | typeAlias _ _ _ h =>
    rintro _ ⟨⟩
    exact h.isPlural
  | enumeration => exact nofun

theorem Items.isPlural {is : List Import} {ds : List Declaration}
    (h : Items settled ts is ds rest) : Scope.IsPlural ds := by
  induction h with
  | nil => exact nofun
  | blank _ _ ih | importing _ _ ih => exact ih
  | declaring _ h _ ih => exact List.forall_mem_cons.mpr ⟨h.isPlural, ih⟩

/-- **The unions of a file** have at least two members each. -/
theorem isPlural_of_parse {text : String} {u : SourceUnit} (h : SourceUnit.parse text = .ok u) :
    Scope.IsPlural u.declarations := by
  obtain ⟨ts, -, last, -, hitems⟩ := parse_eq_ok_iff.mp h
  exact hitems.isPlural

end Grammar

end DeclaredSchema
