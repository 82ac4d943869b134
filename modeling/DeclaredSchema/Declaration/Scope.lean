import DeclaredSchema.Declaration.Site

/-!
# Names in scope

The declarations of a file are visible to each other in any order. Two walks follow names through
aliases: the flattening of a union, and the search for the bases of an interface. Aliases may be
cyclic, so each walk carries the names that it has expanded; it ends because the declarations not
yet expanded become fewer.

## Main definitions

* `Scope`, `Scope.find?`, `Scope.alias?`, `Scope.interface?` — declarations by name
* `Scope.unseen` — how many declarations are not yet expanded
* `flatten` — a union with the unions nested in it and the union aliases it refers to expanded
* `alternatives` — the alternatives of a type besides null and undefined
* `namesShape` — whether an alias declares a type of its own or renames another
-/

namespace DeclaredSchema

/-- The declarations of a file. -/
abbrev Scope := List Declaration

namespace Scope

/-- The first declaration of a name. -/
def find? (scope : Scope) (name : String) : Option Declaration :=
  List.find? (fun d => d.name = name) scope

def alias? (scope : Scope) (name : String) : Option Alias :=
  match scope.find? name with
  | some (.typeAlias d) => some d
  | _ => none

def interface? (scope : Scope) (name : String) : Option Interface :=
  match scope.find? name with
  | some (.interface d) => some d
  | _ => none

theorem mem_of_find? {scope : Scope} {name : String} {d : Declaration}
    (h : scope.find? name = some d) : d ∈ scope :=
  List.mem_of_find?_eq_some h

theorem name_of_find? {scope : Scope} {name : String} {d : Declaration}
    (h : scope.find? name = some d) : d.name = name := by
  simpa using List.find?_some h

theorem find?_of_alias? {scope : Scope} {name : String} {d : Alias}
    (h : scope.alias? name = some d) : scope.find? name = some (.typeAlias d) := by
  unfold alias? at h
  split at h <;> simp_all

theorem find?_of_interface? {scope : Scope} {name : String} {d : Interface}
    (h : scope.interface? name = some d) : scope.find? name = some (.interface d) := by
  unfold interface? at h
  split at h <;> simp_all

/-- How many declarations have a name that is not in `seen`. -/
def unseen (scope : Scope) (seen : List String) : Nat :=
  scope.countP fun d => !seen.contains d.name

theorem unseen_cons_le (scope : Scope) (seen : List String) (name : String) :
    scope.unseen (name :: seen) ≤ scope.unseen seen := by
  unfold unseen
  refine List.countP_mono_left fun d _ h => ?_
  simp at h ⊢
  exact h.2

theorem unseen_cons_lt {scope : Scope} {seen : List String} {name : String} {d : Declaration}
    (hfind : scope.find? name = some d) (hnew : name ∉ seen) :
    scope.unseen (name :: seen) < scope.unseen seen := by
  have hname := name_of_find? hfind
  have hmem := mem_of_find? hfind
  clear hfind
  induction scope with
  | nil => cases hmem
  | cons e rest ih =>
    have hrest := unseen_cons_le rest seen name
    simp only [unseen, List.countP_cons] at ih hrest ⊢
    rcases List.mem_cons.1 hmem with rfl | hmem
    · have hold : seen.contains d.name = false := by simpa [hname] using hnew
      have hadd : (name :: seen).contains d.name = true := by simp [hname]
      rw [hold, hadd]
      exact Nat.lt_succ_of_le hrest
    · refine Nat.add_lt_add_of_lt_of_le (ih hmem) ?_
      split
      · next hkept => exact Nat.le_of_eq (if_pos (by simp at hkept ⊢; exact hkept.2)).symm
      · exact Nat.zero_le _

end Scope

/-! ## Unions -/

mutual

/-- The leaves of a union, from left to right: nested unions are expanded in place, and so are
references without arguments to aliases of unions, unless they are being expanded already. -/
def flatten (scope : Scope) (seen : List String) (site : Site) (e : TypeExpr) : List Node :=
  match e with
  | .union members => flattenAll scope seen site 0 members
  | .reference name [] position =>
    match _h : scope.alias? name with
    | some d =>
      if _hd : d.type.isUnion = true ∧ name ∉ seen then
        flatten scope (name :: seen) (Site.body name) d.type
      else [⟨site, .reference name [] position⟩]
    | none => [⟨site, .reference name [] position⟩]
  | leaf => [⟨site, leaf⟩]
termination_by (scope.unseen seen, sizeOf e)
decreasing_by
  · exact Prod.Lex.right _ (by simp)
  · exact Prod.Lex.left _ _ (Scope.unseen_cons_lt (Scope.find?_of_alias? _h) _hd.2)

/-- The leaves of the children of `site` from the `i`-th on. -/
def flattenAll (scope : Scope) (seen : List String) (site : Site) (i : Nat)
    (es : List TypeExpr) : List Node :=
  match es with
  | [] => []
  | e :: rest => flatten scope seen (site.child i) e ++ flattenAll scope seen site (i + 1) rest
termination_by (scope.unseen seen, sizeOf es)
decreasing_by
  · exact Prod.Lex.right _ (by rw [List.cons.sizeOf_spec]; omega)
  · exact Prod.Lex.right _ (by rw [List.cons.sizeOf_spec]; omega)

end

/-- The leaves of a type that nothing has been expanded in yet. -/
def Node.leaves (scope : Scope) (n : Node) : List Node := flatten scope [] n.site n.expr

/-- The alternatives of a type besides null and undefined; a type that is no union is its own only
alternative. -/
def alternatives (scope : Scope) (n : Node) : List Node :=
  if n.expr.isUnion then (n.leaves scope).filter fun m => !m.isNullish else [n]

/-- Whether null or undefined is among the leaves of a type. -/
def hasNullishLeaf (scope : Scope) (n : Node) : Bool := (n.leaves scope).any Node.isNullish

/-- Whether all leaves of a type are null or undefined. -/
def isWhollyNullish (scope : Scope) (n : Node) : Bool := (n.leaves scope).all Node.isNullish

/-- Whether an alias declares a record, a union or an enumeration. Any other alias is transparent:
it only renames a type. -/
def namesShape (scope : Scope) (d : Alias) : Bool :=
  match alternatives scope d.node with
  | [] => false
  | [n] => n.expr.isObject
  | _ => true

/-- The children of a union; anything else has none. -/
def Node.members (n : Node) : List Node :=
  match n.expr with
  | .union es => n.site.nodes es
  | _ => []

end DeclaredSchema
