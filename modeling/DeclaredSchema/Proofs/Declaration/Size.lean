import DeclaredSchema.Declaration.Size
import DeclaredSchema.Proofs.Extraction.Place
import Mathlib.Algebra.GroupWithZero.Nat
import Mathlib.Algebra.Order.BigOperators.Group.List
import Mathlib.Algebra.Order.Group.Nat

/-!
# The expressions of a file

The size of an expression is the number of expressions in it, so a file has no more places than its
size says.

## Main definitions

* `TypeExpr.children`, `TypeExpr.nodes` — the expressions in an expression
* `Scope.nodes` — the expressions of a file

## Main results

* `TypeExpr.length_nodes` — their number is the size
* `mem_nodes_of_isAt` — what stands in a file is one of its expressions
* `length_nodes_le` — a file has no more expressions than its size says
-/

namespace DeclaredSchema

namespace TypeExpr

/-- The parts of an expression. -/
def children : TypeExpr → List TypeExpr
  | keyword _ | literal _ => []
  | reference _ arguments _ => arguments
  | array element => [element]
  | union members => members
  | object ps _ => ps.map Property.type
  | function parameters result => result :: parameters.map Parameter.type

theorem child?_eq_getElem? (e : TypeExpr) (i : Nat) : e.child? i = e.children[i]? := by
  cases e with
  | keyword | literal | reference | union | function => rfl
  | array element =>
    cases i with
    | zero => rfl
    | succ i => rfl
  | object ps position => rw [child?, children, List.getElem?_map]

theorem sizeOfTypes_eq_sum (es : List TypeExpr) : sizeOfTypes es = (es.map size).sum := by
  induction es with
  | nil => rw [sizeOfTypes, List.map_nil, List.sum_nil]
  | cons e rest ih => rw [sizeOfTypes, ih, List.map_cons, List.sum_cons]

theorem sizeOfProperties_eq_sum (ps : List (Property TypeExpr)) :
    sizeOfProperties ps = ((ps.map Property.type).map size).sum := by
  induction ps with
  | nil => rw [sizeOfProperties, List.map_nil, List.map_nil, List.sum_nil]
  | cons p rest ih =>
    rw [sizeOfProperties, ih, List.map_cons, List.map_cons, List.sum_cons, Property.size]

theorem sizeOfParameters_eq_sum (ps : List (Parameter TypeExpr)) :
    sizeOfParameters ps = ((ps.map Parameter.type).map size).sum := by
  induction ps with
  | nil => rw [sizeOfParameters, List.map_nil, List.map_nil, List.sum_nil]
  | cons p rest ih =>
    rw [sizeOfParameters, ih, List.map_cons, List.map_cons, List.sum_cons, Parameter.size]

/-- An expression is as large as its parts together, and itself. -/
theorem size_eq_sum (e : TypeExpr) : e.size = (e.children.map size).sum + 1 := by
  cases e with
  | keyword | literal => rw [size, children, List.map_nil, List.sum_nil]
  | reference | union => rw [size, children, sizeOfTypes_eq_sum]
  | array element => rw [size, children, List.map_singleton, List.sum_singleton]
  | object => rw [size, children, sizeOfProperties_eq_sum]
  | function parameters result =>
    rw [size, children, sizeOfParameters_eq_sum, List.map_cons, List.sum_cons, Nat.add_comm result.size]

theorem size_lt_of_mem_children {e c : TypeExpr} (h : c ∈ e.children) : c.size < e.size := by
  rw [size_eq_sum e]
  exact Nat.lt_succ_of_le (List.le_sum_of_mem (List.mem_map_of_mem h))

/-- The expressions in an expression that stands at a site. -/
def nodes (s : Site) (e : TypeExpr) : List Node :=
  ⟨s, e⟩ :: (s.nodes e.children).attach.flatMap fun ⟨m, _⟩ => m.expr.nodes m.site
termination_by e.size
decreasing_by exact size_lt_of_mem_children (Site.expr_mem_of_mem_nodes ‹_›)

theorem nodes_eq (s : Site) (e : TypeExpr) :
    e.nodes s = ⟨s, e⟩ :: (s.nodes e.children).flatMap fun m => m.expr.nodes m.site := by
  rw [nodes, List.flatMap_subtype fun _ _ => rfl, List.unattach_attach]

theorem mem_nodes_self (s : Site) (e : TypeExpr) : ⟨s, e⟩ ∈ e.nodes s := by
  rw [nodes_eq]
  exact List.mem_cons_self ..

/-- **The size of an expression** is the number of expressions in it. -/
theorem length_nodes (s : Site) (e : TypeExpr) : (e.nodes s).length = e.size := by
  fun_induction nodes s e with
  | case1 s e ih =>
    have hparts : (s.nodes e.children).map (fun m => (m.expr.nodes m.site).length) =
        (s.nodes e.children).map (size ∘ Node.expr) :=
      List.map_congr_left fun m hm => ih m hm
    have hexpr : (s.nodes e.children).map Node.expr = e.children := by
      rw [Site.nodes, List.map_map]
      exact List.zipIdx_map_fst 0 e.children
    rw [List.length_cons, List.flatMap_subtype fun _ _ => rfl, List.unattach_attach,
      List.length_flatMap, hparts, ← List.map_map, hexpr, ← size_eq_sum]

/-- Parts of the expressions in an expression are expressions in it. -/
theorem mem_nodes_of_child? {s : Site} {e c : TypeExpr} {m : Node} {i : Nat} (hm : m ∈ e.nodes s)
    (hc : m.expr.child? i = some c) : ⟨m.site.child i, c⟩ ∈ e.nodes s := by
  fun_induction nodes s e with
  | case1 s e ih =>
    rw [← nodes, nodes_eq] at hm ⊢
    rcases List.mem_cons.mp hm with rfl | hm
    · have hpart : ⟨s.child i, c⟩ ∈ s.nodes e.children := by
        rw [child?_eq_getElem?] at hc
        exact List.mem_map.mpr ⟨(c, i), List.mk_mem_zipIdx_iff_getElem?.mpr hc, rfl⟩
      exact List.mem_cons_of_mem _ (List.mem_flatMap.mpr ⟨_, hpart, mem_nodes_self ..⟩)
    · obtain ⟨part, hpart, hm⟩ := List.mem_flatMap.mp hm
      exact List.mem_cons_of_mem _ (List.mem_flatMap.mpr ⟨part, hpart, ih part hpart hm⟩)

end TypeExpr

/-- The expressions of a file. -/
def Scope.nodes (scope : Scope) : List Node :=
  scope.flatMap fun d => (d.body?.map (TypeExpr.nodes (Site.body d.name))).getD []

/-- **What stands in a file** is one of its expressions. -/
theorem mem_nodes_of_isAt {scope : Scope} {n : Node} (h : IsAt scope n) : n ∈ scope.nodes := by
  obtain ⟨⟨name, path⟩, e⟩ := n
  induction path generalizing e with
  | nil =>
    obtain ⟨d, hd, hbody⟩ := Option.bind_eq_some_iff.mp h
    have hname : d.name = name := Scope.name_of_find? hd
    refine List.mem_flatMap.mpr ⟨d, Scope.mem_of_find? hd, ?_⟩
    rw [hbody, Option.map_some, Option.getD_some, hname]
    exact e.mem_nodes_self _
  | cons i rest ih =>
    obtain ⟨e', he', hchild⟩ := Option.bind_eq_some_iff.mp h
    obtain ⟨d, hd, hmem⟩ := List.mem_flatMap.mp (ih e' he')
    refine List.mem_flatMap.mpr ⟨d, hd, ?_⟩
    cases hbody : d.body? with
    | none =>
      rw [hbody] at hmem
      cases hmem
    | some b =>
      rw [hbody] at hmem
      exact TypeExpr.mem_nodes_of_child? hmem hchild

/-- **The number of expressions** of a file, and that of its declarations, is at most its size. -/
theorem length_nodes_le (u : SourceUnit) :
    (Scope.nodes u.declarations).length ≤ u.size ∧ u.declarations.length ≤ u.size := by
  rw [SourceUnit.size]
  induction u.declarations with
  | nil => exact ⟨Nat.le_refl _, Nat.le_refl _⟩
  | cons d rest ih =>
    have hd : ((d.body?.map (TypeExpr.nodes (Site.body d.name))).getD []).length ≤ d.size ∧
        1 ≤ d.size := by
      cases d with
      | interface d =>
        simp [Declaration.body?, TypeExpr.length_nodes, TypeExpr.size, Declaration.size]
      | typeAlias d => simp [Declaration.body?, TypeExpr.length_nodes, Declaration.size]
      | enumeration d => simp [Declaration.body?, Declaration.size]
    rw [Scope.nodes, List.flatMap_cons, List.length_append, List.foldr_cons, List.length_cons]
    rw [Scope.nodes] at ih
    omega

end DeclaredSchema
