import DeclaredSchema.Declaration

/-!
# Where a type expression is written

Two object types with the same members are two types, so a type expression has an identity besides
its form: the place where it is written. A site is the name of a declaration with the numbers of the
children that lead from its body to the place. It does not depend on the order of the declarations.

## Main definitions

* `Site`, `Site.child` — a place, and the places below it
* `Node` — a type expression with its site
* `Signature` — a member with its site and the name of its owner
-/

namespace DeclaredSchema

/-- A place in a file: a declaration and a path in its body, innermost step first. -/
structure Site where
  declaration : String
  path : List Nat
  deriving DecidableEq, Repr

/-- The `i`-th child of a place. -/
def Site.child (s : Site) (i : Nat) : Site := { s with path := i :: s.path }

/-- A type expression with the place where it is written. -/
structure Node where
  site : Site
  expr : TypeExpr

/-- A member with the place of its type and the name of the type that it is written in. -/
structure Signature where
  owner : String
  site : Site
  property : Property TypeExpr

/-- The body of a declaration. -/
def Site.body (name : String) : Site := ⟨name, []⟩

/-- Type expressions as the children of a place. -/
def Site.nodes (s : Site) (es : List TypeExpr) : List Node :=
  es.zipIdx.map fun (e, i) => ⟨s.child i, e⟩

/-- Members as the children of a place. -/
def Site.signatures (s : Site) (owner : String) (ps : List (Property TypeExpr)) :
    List Signature :=
  ps.zipIdx.map fun (p, i) => ⟨owner, s.child i, p⟩

/-- The name by which messages refer to a member. -/
def Signature.label (s : Signature) : String := s.owner ++ "." ++ s.property.name

/-- The body of an alias. -/
def Alias.node (d : Alias) : Node := ⟨Site.body d.name, d.type⟩

namespace Node

def isNullish (n : Node) : Bool := n.expr.isNullish

end Node

@[simp] theorem Site.length_nodes (s : Site) (es : List TypeExpr) :
    (s.nodes es).length = es.length := by
  simp [Site.nodes]

theorem Site.expr_mem_of_mem_nodes {s : Site} {es : List TypeExpr} {n : Node}
    (h : n ∈ s.nodes es) : n.expr ∈ es := by
  simp only [Site.nodes, List.mem_map] at h
  obtain ⟨⟨e, i⟩, hmem, rfl⟩ := h
  exact List.fst_mem_of_mem_zipIdx hmem

end DeclaredSchema
