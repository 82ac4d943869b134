import DeclaredSchema.Declaration.Error
import DeclaredSchema.Declaration.Scope

/-!
# What a type is besides its wrappings

A type may be wrapped in null and undefined, in `Promise`, and in transparent aliases, in any order
and number. Stripping takes the wrappings off one by one. What it remembers is whether an absent
value was among them, and the last alias on the way, which is how the type was named.

Only the written members of a union are dropped; an alias of a union among them stays as it is.

## Main definitions

* `Stripped` — the type inside, and what was remembered
* `strip` — takes all wrappings off
-/

namespace DeclaredSchema

/-- The name of the wrapping that stands for a later value. -/
def promiseName : String := "Promise"

/-- A type without wrappings, whether an absent value was admitted on the way, and the last
transparent alias passed. -/
structure Stripped where
  node : Node
  nullable : Bool
  raw : Option String

/-- The members of a union that are not wholly null or undefined. -/
def writtenAlternatives (scope : Scope) (n : Node) : List Node :=
  n.members.filter fun m => !isWhollyNullish scope m

theorem sizeOf_expr_of_mem_writtenAlternatives {scope : Scope} {n m : Node}
    (h : m ∈ writtenAlternatives scope n) : sizeOf m.expr < sizeOf n.expr := by
  obtain ⟨site, expr⟩ := n
  have hm := (List.mem_filter.1 h).1
  unfold Node.members at hm
  split at hm
  · next es heq =>
    simp only at heq
    subst heq
    have := List.sizeOf_lt_of_mem (Site.expr_mem_of_mem_nodes hm)
    simp only [TypeExpr.union.sizeOf_spec]
    omega
  · cases hm

/-- The fault of a type that only admits the absent value. -/
def noAlternative (owner : String) : DeclarationError := ⟨.noAlternative owner, owner, none⟩

/-- Takes the wrappings off a type. `seen` holds the transparent aliases passed so far, `nullable`
and `raw` what was remembered so far. -/
def strip (scope : Scope) (owner : String) (seen : List String) (nullable : Bool)
    (raw : Option String) (n : Node) : Except DeclarationError Stripped :=
  match _hn : n.expr with
  | .union _ =>
    let nullable := nullable || hasNullishLeaf scope n
    match _h : writtenAlternatives scope n with
    | [] => .error (noAlternative owner)
    | [m] => strip scope owner seen nullable raw m
    | _ => .ok ⟨n, nullable, raw⟩
  | .keyword word => if word.isNullish then .error (noAlternative owner) else .ok ⟨n, nullable, raw⟩
  | .reference name arguments _ =>
    match _harg : arguments with
    | [argument] =>
      if name = promiseName then strip scope owner seen nullable raw ⟨n.site.child 0, argument⟩
      else stripAlias scope owner seen nullable raw n name
    | _ => stripAlias scope owner seen nullable raw n name
  | _ => .ok ⟨n, nullable, raw⟩
termination_by (scope.unseen seen, sizeOf n.expr, 1)
decreasing_by
  · exact Prod.Lex.right _ (Prod.Lex.left _ _
      (sizeOf_expr_of_mem_writtenAlternatives (by rw [_h]; simp)))
  · exact Prod.Lex.right _ (Prod.Lex.left _ _ (by rw [_hn]; simp; omega))
  · exact Prod.Lex.right _ (Prod.Lex.right _ (by omega))
  · exact Prod.Lex.right _ (Prod.Lex.right _ (by omega))
where
  /-- Goes on with the body of an alias that is transparent and not yet passed. -/
  stripAlias (scope : Scope) (owner : String) (seen : List String) (nullable : Bool)
      (raw : Option String) (n : Node) (name : String) : Except DeclarationError Stripped :=
    match _h : scope.alias? name with
    | none => .ok ⟨n, nullable, raw⟩
    | some d =>
      if namesShape scope d then
        .ok ⟨n, nullable || (d.type.isUnion && hasNullishLeaf scope d.node), raw⟩
      else if _hs : name ∈ seen then .error ⟨.aliasOfItself name, name, some d.position⟩
      else strip scope owner (name :: seen) nullable (some name) d.node
  termination_by (scope.unseen seen, sizeOf n.expr, 0)
  decreasing_by
    exact Prod.Lex.left _ _ (Scope.unseen_cons_lt (Scope.find?_of_alias? _h) _hs)

end DeclaredSchema
