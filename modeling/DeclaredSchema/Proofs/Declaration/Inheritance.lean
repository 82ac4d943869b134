import DeclaredSchema.Declaration.Lineage
import Mathlib.Logic.Relation
import Mathlib.Order.WellFounded

/-!
# The members that an interface has

An interface has the members of everything it extends, in the order of its `extends` clause, and
then its own. This is said here without a chain of the interfaces on the way: an interface has a
sequence of members exactly if the clauses lead to no circle and name nothing but interfaces and
aliases of object types. It is compared with the lineage of the interface, whose steps are members
only in this case.

## Main definitions

* `Extends`, `IsBase` — the interfaces that another one extends, and what may be extended
* `Brings`, `IsSequence` — the members that bases bring, and those of an interface

## Main results

* `IsSequence.unique` — an interface has one sequence
* `exists_isSequence` — a lineage of members is the sequence of its interface
* `IsSequence.isBase`, `IsSequence.not_extends_self` — an interface with a sequence has sound bases
* `tells_of_mem_lineage` — a step that is no member tells of a circle, or of what is no base
-/

namespace DeclaredSchema

/-- An interface extends another one of the file. -/
def Extends (scope : Scope) (d e : Interface) : Prop :=
  ∃ base ∈ d.bases, scope.find? base = some (.interface e)

/-- What may be extended: an interface of the file, or an alias of an object type. -/
def IsBase (scope : Scope) (base : String) : Prop :=
  (∃ d, scope.find? base = some (.interface d)) ∨
    ∃ d ps position, scope.find? base = some (.typeAlias d) ∧ d.type = .object ps position

/-- The members that are written in the body of an interface. -/
def Interface.own (d : Interface) : List Signature := (Site.body d.name).signatures d.name d.members

/-- The members that the bases of an `extends` clause bring: an interface brings all that its own
bases bring and then its own members, and an alias the members of its object type. -/
inductive Brings (scope : Scope) : List String → List Signature → Prop
  | nil : Brings scope [] []
  | interface {base : String} {rest : List String} {d : Interface} {xs ys : List Signature}
      (hd : scope.find? base = some (.interface d)) (hbases : Brings scope d.bases xs)
      (hrest : Brings scope rest ys) : Brings scope (base :: rest) (xs ++ d.own ++ ys)
  | object {base : String} {rest : List String} {d : Alias} {ps : List (Property TypeExpr)}
      {position : Position} {ys : List Signature} (hd : scope.find? base = some (.typeAlias d))
      (htype : d.type = .object ps position) (hrest : Brings scope rest ys) :
      Brings scope (base :: rest) ((Site.body d.name).signatures d.name ps ++ ys)

/-- The members of an interface: those that its bases bring, and then its own. -/
def IsSequence (scope : Scope) (d : Interface) (xs : List Signature) : Prop :=
  ∃ inherited, Brings scope d.bases inherited ∧ xs = inherited ++ d.own

variable {scope : Scope} {bases bases' : List String} {xs xs' ys : List Signature}
  {d e sub : Interface} {base : String}

/-! ### An interface with a sequence -/

theorem Brings.unique (h : Brings scope bases xs) (h' : Brings scope bases xs') : xs = xs' := by
  induction h generalizing xs' with
  | nil =>
    cases h'
    rfl
  | interface hd hbases hrest ih ihrest =>
    cases h' with
    | interface hd' hbases' hrest' =>
      cases hd.symm.trans hd'
      rw [ih hbases', ihrest hrest']
    | object hd' => cases hd.symm.trans hd'
  | object hd htype hrest ihrest =>
    cases h' with
    | interface hd' => cases hd.symm.trans hd'
    | object hd' htype' hrest' =>
      cases hd.symm.trans hd'
      cases htype.symm.trans htype'
      rw [ihrest hrest']

theorem Brings.append (h : Brings scope bases xs) (h' : Brings scope bases' ys) :
    Brings scope (bases ++ bases') (xs ++ ys) := by
  induction h with
  | nil => exact h'
  | interface hd hbases _ _ ihrest =>
    rw [List.append_assoc]
    exact .interface hd hbases ihrest
  | object hd htype _ ihrest =>
    rw [List.append_assoc]
    exact .object hd htype ihrest

theorem Brings.isBase (h : Brings scope bases xs) (hbase : base ∈ bases) : IsBase scope base := by
  induction h with
  | nil => cases hbase
  | interface hd _ _ _ ihrest =>
    rcases List.mem_cons.mp hbase with rfl | hbase
    · exact .inl ⟨_, hd⟩
    · exact ihrest hbase
  | object hd htype _ ihrest =>
    rcases List.mem_cons.mp hbase with rfl | hbase
    · exact .inr ⟨_, _, _, hd, htype⟩
    · exact ihrest hbase

/-- The clauses that lead on from bases come to an end, since there is something that they bring. -/
theorem Brings.acc (h : Brings scope bases xs) (hbase : base ∈ bases)
    (hd : scope.find? base = some (.interface d)) : Acc (Function.swap (Extends scope)) d := by
  induction h generalizing base d with
  | nil => cases hbase
  | interface hd' _ _ ih ihrest =>
    rcases List.mem_cons.mp hbase with rfl | hbase
    · cases hd.symm.trans hd'
      exact Acc.intro _ fun e ⟨base', hbase', he⟩ => ih hbase' he
    · exact ihrest hbase hd
  | object hd' _ _ ihrest =>
    rcases List.mem_cons.mp hbase with rfl | hbase
    · cases hd.symm.trans hd'
    · exact ihrest hbase hd

theorem not_rel_self_of_acc {α : Type} {r : α → α → Prop} {a : α} (h : Acc r a) : ¬r a a := by
  induction h with
  | intro a _ ih => exact fun hself => ih a hself hself

namespace IsSequence

/-- **An interface has one sequence.** -/
theorem unique (h : IsSequence scope d xs) (h' : IsSequence scope d xs') : xs = xs' := by
  obtain ⟨inherited, hbrings, rfl⟩ := h
  obtain ⟨inherited', hbrings', rfl⟩ := h'
  rw [hbrings.unique hbrings']

/-- An interface with a sequence extends nothing but interfaces and aliases of object types. -/
theorem isBase (h : IsSequence scope d xs) (hbase : base ∈ d.bases) : IsBase scope base := by
  obtain ⟨inherited, hbrings, -⟩ := h
  exact hbrings.isBase hbase

/-- An interface with a sequence does not reach itself. -/
theorem not_extends_self (h : IsSequence scope d xs) :
    ¬Relation.TransGen (Extends scope) d d := by
  obtain ⟨inherited, hbrings, -⟩ := h
  have hacc : Acc (Function.swap (Extends scope)) d :=
    Acc.intro _ fun e ⟨base, hbase, he⟩ => hbrings.acc hbase he
  exact fun hself => not_rel_self_of_acc hacc.transGen (Relation.transGen_swap.mpr hself)

end IsSequence

/-! ### A lineage of members -/

/-- All steps are members. -/
def AreMembers (steps : List LineageStep) : Prop := ∀ step ∈ steps, ∃ s, step = .member s

theorem written_eq : d.written = d.own.map .member := rfl

/-- Bases that bring members one by one bring them together. -/
theorem exists_brings_of_forall {f : String → List LineageStep}
    (h : ∀ b ∈ bases, ∃ xs, f b = xs.map .member ∧ Brings scope [b] xs) :
    ∃ xs, bases.flatMap f = xs.map .member ∧ Brings scope bases xs := by
  induction bases with
  | nil => exact ⟨[], rfl, .nil⟩
  | cons b rest ih =>
    obtain ⟨xs, hxs, hb⟩ := h b (List.mem_cons_self ..)
    obtain ⟨ys, hys, hrest⟩ := ih fun b hb => h b (List.mem_cons_of_mem _ hb)
    refine ⟨xs ++ ys, ?_, hb.append hrest⟩
    rw [List.flatMap_cons, hxs, hys, List.map_append]

theorem exists_brings (chain : List String) (sub : Interface) (base : String)
    (h : AreMembers (baseLineage scope chain sub base)) :
    ∃ xs, baseLineage scope chain sub base = xs.map .member ∧ Brings scope [base] xs := by
  fun_induction baseLineage scope chain sub base with
  | case1 chain sub base d hd hc =>
    obtain ⟨s, hs⟩ := h _ (List.mem_singleton_self _)
    cases hs
  | case2 chain sub base d hd hc ih =>
    obtain ⟨xs, hxs, hbrings⟩ := exists_brings_of_forall fun b hb => ih b fun step hstep =>
      h step (List.mem_append_left _ (List.mem_flatMap.mpr ⟨b, hb, hstep⟩))
    refine ⟨xs ++ d.own ++ [], ?_, .interface hd hbrings .nil⟩
    rw [hxs, written_eq, List.append_nil, List.map_append]
  | case3 chain sub base d hd ps position htype =>
    refine ⟨(Site.body d.name).signatures d.name ps ++ [], ?_, .object hd htype .nil⟩
    rw [List.append_nil, writtenMembers]
  | case4 chain sub base d hd htype =>
    obtain ⟨s, hs⟩ := h _ (List.mem_singleton_self _)
    cases hs
  | case5 chain sub base =>
    obtain ⟨s, hs⟩ := h _ (List.mem_singleton_self _)
    cases hs

/-- **A lineage of members** is the sequence of its interface. -/
theorem exists_isSequence (h : AreMembers (lineage scope d)) :
    ∃ xs, lineage scope d = xs.map .member ∧ IsSequence scope d xs := by
  have hbases : ∀ b ∈ d.bases,
      ∃ xs, baseLineage scope [d.name] d b = xs.map .member ∧ Brings scope [b] xs :=
    fun b hb => exists_brings [d.name] d b fun step hstep =>
      h step (List.mem_append_left _ (List.mem_flatMap.mpr ⟨b, hb, hstep⟩))
  obtain ⟨xs, hxs, hbrings⟩ := exists_brings_of_forall hbases
  refine ⟨xs ++ d.own, ?_, xs, hbrings, rfl⟩
  rw [lineage, hxs, written_eq, List.map_append]

/-! ### Steps that are no members -/

/-- The names of a chain are those of interfaces that lead to `sub`. -/
def LeadsHere (scope : Scope) (chain : List String) (sub : Interface) : Prop :=
  ∀ name ∈ chain, ∀ d, scope.find? name = some (.interface d) →
    Relation.ReflTransGen (Extends scope) d sub

theorem LeadsHere.cons {chain : List String} (h : LeadsHere scope chain sub)
    (hbase : base ∈ sub.bases) (hd : scope.find? base = some (.interface d)) :
    LeadsHere scope (base :: chain) d := by
  intro name hname e he
  rcases List.mem_cons.mp hname with rfl | hname
  · cases hd.symm.trans he
    exact .refl
  · exact (h name hname e he).tail ⟨base, hbase, hd⟩

/-- What a step that is no member tells of the file. -/
def Tells (scope : Scope) : LineageStep → Prop
  | .member _ => True
  | .inheritsItself d => .interface d ∈ scope ∧ Relation.TransGen (Extends scope) d d
  | .notABase d base => .interface d ∈ scope ∧ base ∈ d.bases ∧ ¬IsBase scope base

theorem tells_of_mem_baseLineage (chain : List String) (sub : Interface) (base : String)
    (hsub : .interface sub ∈ scope) (hchain : LeadsHere scope chain sub)
    (hbase : base ∈ sub.bases) : ∀ step ∈ baseLineage scope chain sub base, Tells scope step := by
  fun_induction baseLineage scope chain sub base with
  | case1 chain sub base d hd hc =>
    intro step hstep
    cases List.mem_singleton.mp hstep
    exact ⟨Scope.mem_of_find? hd, .tail' (hchain base hc d hd) ⟨base, hbase, hd⟩⟩
  | case2 chain sub base d hd hc ih =>
    intro step hstep
    rcases List.mem_append.mp hstep with hstep | hstep
    · obtain ⟨b, hb, hstep⟩ := List.mem_flatMap.mp hstep
      exact ih b (Scope.mem_of_find? hd) (hchain.cons hbase hd) hb step hstep
    · obtain ⟨s, -, rfl⟩ := List.mem_map.mp (written_eq ▸ hstep)
      trivial
  | case3 chain sub base d hd ps position htype =>
    intro step hstep
    obtain ⟨s, -, rfl⟩ := List.mem_map.mp hstep
    trivial
  | case4 chain sub base d hd htype =>
    intro step hstep
    cases List.mem_singleton.mp hstep
    refine ⟨hsub, hbase, ?_⟩
    rintro (⟨e, he⟩ | ⟨e, ps, position, he, hobject⟩)
    · cases hd.symm.trans he
    · cases hd.symm.trans he
      exact htype ps position hobject
  | case5 chain sub base hinterface halias =>
    intro step hstep
    cases List.mem_singleton.mp hstep
    refine ⟨hsub, hbase, ?_⟩
    rintro (⟨e, he⟩ | ⟨e, ps, position, he, -⟩)
    · exact hinterface e he
    · exact halias e he

theorem tells_of_mem_lineage (hd : scope.find? d.name = some (.interface d)) :
    ∀ step ∈ lineage scope d, Tells scope step := by
  intro step hstep
  rcases List.mem_append.mp hstep with hstep | hstep
  · obtain ⟨b, hb, hstep⟩ := List.mem_flatMap.mp hstep
    have hchain : LeadsHere scope [d.name] d := by
      intro name hname e he
      cases List.mem_singleton.mp hname
      cases hd.symm.trans he
      exact .refl
    exact tells_of_mem_baseLineage [d.name] d b (Scope.mem_of_find? hd) hchain hb step hstep
  · obtain ⟨s, -, rfl⟩ := List.mem_map.mp (written_eq ▸ hstep)
    trivial

end DeclaredSchema
