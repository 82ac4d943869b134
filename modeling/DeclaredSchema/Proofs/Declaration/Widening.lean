import DeclaredSchema.Proofs.Extraction.Place
import Mathlib.Data.List.Basic

/-!
# Scopes that say the same

What a file says depends on the declarations that its names refer to, and on nothing else: not on
their order, and not on further declarations that it does not mention. A scope that has all
declarations of another one, and declares nothing else that the other one mentions, gives every
expression of the other one the same leaves, the same type without wrappings and the same lineage.

## Main definitions

* `IsMentioned` — a name is used in a scope
* `Widens` — a scope goes beyond another one without a change to what is said there

## Main results

* `Widens.flatten_eq`, `Widens.strip_eq`, `Widens.lineage_eq` — the walks agree
-/

namespace DeclaredSchema

/-- A type refers to the name, or an interface extends it. -/
def IsMentioned (scope : Scope) (name : String) : Prop :=
  (∃ s arguments position, IsAt scope ⟨s, .reference name arguments position⟩) ∨
    ∃ d, .interface d ∈ scope ∧ name ∈ d.bases

/-- `scope'` declares all that `scope` declares, and nothing else that `scope` mentions. -/
structure Widens (scope scope' : Scope) : Prop where
  found : ∀ {name d}, scope.find? name = some d → scope'.find? name = some d
  missing : ∀ {name}, IsMentioned scope name → scope.find? name = none → scope'.find? name = none

variable {scope scope' : Scope} {n m : Node} {s : Site} {e : TypeExpr} {name owner : String}
  {arguments : List TypeExpr} {position : Position}

theorem isMentioned_of_isAt (h : IsAt scope ⟨s, .reference name arguments position⟩) :
    IsMentioned scope name :=
  .inl ⟨s, arguments, position, h⟩

/-- The types of a union stand at the sites of its members. -/
theorem isAt_of_mem_members (h : IsAt scope n) (hm : m ∈ n.members) : IsAt scope m := by
  obtain ⟨s, e⟩ := n
  cases e with
  | union es => exact isAt_of_mem_nodes h hm
  | keyword | literal | reference | array | object | function => cases hm

namespace Widens

variable (h : Widens scope scope')

include h

theorem find?_eq (hname : IsMentioned scope name) : scope'.find? name = scope.find? name := by
  cases hfind : scope.find? name with
  | some d => exact h.found hfind
  | none => exact h.missing hname hfind

theorem alias?_eq (hname : IsMentioned scope name) : scope'.alias? name = scope.alias? name := by
  rw [Scope.alias?, Scope.alias?, h.find?_eq hname]

theorem isAt (hn : IsAt scope n) : IsAt scope' n := by
  have hwalk : ∀ (path : List Nat) (x x' : Option TypeExpr), (∀ e, x = some e → x' = some e) →
      ∀ e, path.foldr (fun i e => e.bind (TypeExpr.child? i)) x = some e →
        path.foldr (fun i e => e.bind (TypeExpr.child? i)) x' = some e := by
    intro path x x' hx
    induction path with
    | nil => exact hx
    | cons i rest ih =>
      intro e he
      obtain ⟨e', he', hchild⟩ := Option.bind_eq_some_iff.mp he
      exact Option.bind_eq_some_iff.mpr ⟨e', ih e' he', hchild⟩
  refine hwalk n.site.path _ _ (fun e he => ?_) n.expr hn
  obtain ⟨d, hd, hbody⟩ := Option.bind_eq_some_iff.mp he
  exact Option.bind_eq_some_iff.mpr ⟨d, h.found hd, hbody⟩

/-! ### Unions -/

theorem flatten_eq (seen : List String) (s : Site) (e : TypeExpr) (hn : IsAt scope ⟨s, e⟩) :
    flatten scope' seen s e = flatten scope seen s e := by
  induction seen, s, e using flatten_induction scope with
  | union ih =>
    rw [flatten_union, flatten_union]
    exact List.flatMap_congr fun m hm => ih m hm (isAt_of_mem_nodes hn hm)
  | through hd hunion hseen ih =>
    have hname := Scope.name_of_find? (Scope.find?_of_alias? hd)
    have hd' := (h.alias?_eq (isMentioned_of_isAt hn)).trans hd
    rw [flatten_alias hd hunion hseen, flatten_alias hd' hunion hseen]
    exact ih (hname ▸ isAt_alias hd)
  | leaf hleaf =>
    rw [flatten_unexpanded hleaf, flatten_unexpanded ⟨hleaf.1, ?_⟩]
    rintro name position d rfl hd'
    exact hleaf.2 name position d rfl ((h.alias?_eq (isMentioned_of_isAt hn)).symm.trans hd')

theorem leaves_eq (hn : IsAt scope n) : n.leaves scope' = n.leaves scope :=
  h.flatten_eq [] n.site n.expr hn

theorem alternatives_eq (hn : IsAt scope n) : alternatives scope' n = alternatives scope n := by
  rw [alternatives, alternatives, h.leaves_eq hn]

theorem hasNullishLeaf_eq (hn : IsAt scope n) :
    hasNullishLeaf scope' n = hasNullishLeaf scope n := by
  rw [hasNullishLeaf, hasNullishLeaf, h.leaves_eq hn]

theorem writtenAlternatives_eq (hn : IsAt scope n) :
    writtenAlternatives scope' n = writtenAlternatives scope n := by
  refine List.filter_congr fun m hm => ?_
  rw [isWhollyNullish, isWhollyNullish, h.leaves_eq (isAt_of_mem_members hn hm)]

theorem namesShape_eq {d : Alias} (hd : IsAt scope d.node) :
    namesShape scope' d = namesShape scope d := by
  rw [namesShape, namesShape, h.alternatives_eq hd]

/-! ### Stripping -/

theorem strip_eq (owner : String) (seen : List String) (nullable : Bool) (raw : Option String)
    (n : Node) (hn : IsAt scope n) :
    strip scope' owner seen nullable raw n = strip scope owner seen nullable raw n := by
  induction seen, nullable, raw, n using strip_induction scope with
  | empty hempty =>
    rw [strip_empty hempty, strip_empty ((h.writtenAlternatives_eq hn).trans hempty)]
  | @only _ _ _ s es m honly ih =>
    have hm : m ∈ writtenAlternatives scope ⟨s, .union es⟩ := honly ▸ List.mem_singleton_self m
    rw [strip_only honly, strip_only ((h.writtenAlternatives_eq hn).trans honly),
      h.hasNullishLeaf_eq hn]
    exact ih (isAt_of_mem_members hn (List.mem_filter.mp hm).1)
  | several hseveral =>
    rw [strip_several hseveral, strip_several (by rwa [h.writtenAlternatives_eq hn]),
      h.hasNullishLeaf_eq hn]
  | keyword => rw [strip_keyword, strip_keyword]
  | promise ih =>
    rw [strip_promise, strip_promise]
    exact ih (exprAt?_child hn)
  | undeclared hpromise hd =>
    have hd' := (h.alias?_eq (isMentioned_of_isAt hn)).trans hd
    rw [strip_undeclared hpromise hd, strip_undeclared hpromise hd']
  | shape hpromise hd hshape =>
    have hnode := isAt_alias hd
    have hd' := (h.alias?_eq (isMentioned_of_isAt hn)).trans hd
    rw [strip_shape hpromise hd hshape,
      strip_shape hpromise hd' ((h.namesShape_eq hnode).trans hshape), h.hasNullishLeaf_eq hnode]
  | again hpromise hd hshape hseen =>
    have hd' := (h.alias?_eq (isMentioned_of_isAt hn)).trans hd
    have hshape' := (h.namesShape_eq (isAt_alias hd)).trans hshape
    rw [strip_again hpromise hd hshape hseen, strip_again hpromise hd' hshape' hseen]
  | followed hpromise hd hshape hseen ih =>
    have hd' := (h.alias?_eq (isMentioned_of_isAt hn)).trans hd
    have hshape' := (h.namesShape_eq (isAt_alias hd)).trans hshape
    rw [strip_followed hpromise hd hshape hseen, strip_followed hpromise hd' hshape' hseen]
    exact ih (isAt_alias hd)
  | literal | array | object | function => rw [strip, strip]

theorem strips_iff (hn : IsAt scope n) {t : Stripped} : Strips scope' n t ↔ Strips scope n t := by
  rw [Strips, Strips, h.strip_eq "" [] false none n hn]

/-! ### Lineages -/

theorem baseLineage_eq (chain : List String) (sub : Interface) (base : String)
    (hbase : IsMentioned scope base) :
    baseLineage scope' chain sub base = baseLineage scope chain sub base := by
  fun_induction baseLineage scope chain sub base with
  | case1 chain sub base d hd hc =>
    rw [baseLineage]
    split <;> simp_all [h.found hd]
  | case2 chain sub base d hd hc ih =>
    have hmem : .interface d ∈ scope := Scope.mem_of_find? hd
    have hall : d.bases.flatMap (baseLineage scope' (base :: chain) d) =
        d.bases.flatMap (baseLineage scope (base :: chain) d) :=
      List.flatMap_congr fun b hb => ih b (.inr ⟨d, hmem, hb⟩)
    rw [baseLineage, ← hall]
    split <;> simp_all [h.found hd]
  | case3 chain sub base d hd ps position htype =>
    rw [baseLineage]
    split <;> simp_all [h.found hd]
  | case4 chain sub base d hd htype =>
    rw [baseLineage]
    split <;> simp_all [h.found hd]
  | case5 chain sub base hinterface halias =>
    rw [baseLineage]
    split <;> simp_all [h.find?_eq hbase]

theorem lineage_eq {d : Interface} (hd : .interface d ∈ scope) :
    lineage scope' d = lineage scope d := by
  have hall : d.bases.flatMap (baseLineage scope' [d.name] d) =
      d.bases.flatMap (baseLineage scope [d.name] d) :=
    List.flatMap_congr fun b hb => h.baseLineage_eq [d.name] d b (.inr ⟨d, hd, hb⟩)
  rw [lineage, lineage, hall]

end Widens

end DeclaredSchema
