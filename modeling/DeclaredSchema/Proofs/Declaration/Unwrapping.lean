import DeclaredSchema.Proofs.Declaration.Absence

/-!
# The way from a type to what it is besides its wrappings

Stripping a type is a walk: each step takes one wrapping off, and which step it is depends on the
type alone. What the walk remembers and what makes it fail does not matter to a type that can be
stripped, so facts about the type inside follow from the steps.

The walk keeps to the references that the alternatives of a type are reached through, unless it
passes them, and it only ends at the body of an alias where this is no object type.

## Main definitions

* `Unwraps` — one wrapping is taken off
* `IsInside` — what is inside a type, and what it was named
* `AdmitsReference` — a reference to a name is on the way to the alternatives of a type

## Main results

* `isInside_of_strip` — stripping goes by such steps
* `Unwraps.eq_of_down` — no step loses a reference to a record
* `path_ne_nil_of_mem_flatten`, `path_ne_nil_of_unwraps` — where leaves and stripped types stand
-/

namespace DeclaredSchema

/-- One wrapping of a type is taken off. -/
inductive Unwraps (scope : Scope) : Node → Node → Prop
  | only {s : Site} {es : List TypeExpr} {m : Node}
      (honly : writtenAlternatives scope ⟨s, .union es⟩ = [m]) : Unwraps scope ⟨s, .union es⟩ m
  | promise {s : Site} {e : TypeExpr} {position : Position} :
      Unwraps scope ⟨s, .reference promiseName [e] position⟩ ⟨s.child 0, e⟩
  | renamed {s : Site} {name : String} {arguments : List TypeExpr} {position : Position} {d : Alias}
      (hpromise : ∀ e, arguments = [e] → name ≠ promiseName) (hd : scope.alias? name = some d)
      (hshape : namesShape scope d = false) :
      Unwraps scope ⟨s, .reference name arguments position⟩ d.node

/-- The type inside `t` is reached from `n` by taking wrappings off. It has the name that was given
before, or that of an alias that renames a type; the way goes on from its body. -/
structure IsInside (scope : Scope) (n : Node) (raw : Option String) (t : Stripped) : Prop where
  unwraps : Relation.ReflTransGen (Unwraps scope) n t.node
  named : t.raw = raw ∨ ∃ d, scope.alias? d.name = some d ∧ t.raw = some d.name ∧
    Relation.ReflTransGen (Unwraps scope) d.node t.node

/-- A reference to the name, without arguments, is an alternative of the type or leads to one. -/
def AdmitsReference (scope : Scope) (name : String) (e : TypeExpr) : Prop :=
  ∃ position, Relation.ReflTransGen (Down scope) e (.reference name [] position)

variable {scope : Scope} {n m l : Node} {s : Site} {e e' : TypeExpr} {seen : List String}
  {owner name : String} {d : Alias} {position : Position} {raw : Option String} {t : Stripped}

/-! ### Stripping step by step -/

namespace IsInside

theorem refl {nullable : Bool} : IsInside scope n raw ⟨n, nullable, raw⟩ := ⟨.refl, .inl rfl⟩

theorem head (hstep : Unwraps scope n m) (h : IsInside scope m raw t) : IsInside scope n raw t :=
  ⟨.head hstep h.unwraps, h.named⟩

/-- An alias that is passed gives its name, and a later one may give another. -/
theorem renamed (hstep : Unwraps scope n d.node) (hd : scope.alias? name = some d)
    (h : IsInside scope d.node (some name) t) : IsInside scope n raw t := by
  refine ⟨.head hstep h.unwraps, .inr ?_⟩
  obtain rfl : d.name = name := Scope.name_of_find? (Scope.find?_of_alias? hd)
  rcases h.named with hraw | hnamed
  · exact ⟨d, hd, hraw, h.unwraps⟩
  · exact hnamed

end IsInside

/-- **Stripping** takes wrappings off until it is done. -/
theorem isInside_of_strip (scope : Scope) (owner : String) (seen : List String) (nullable : Bool)
    (raw : Option String) (n : Node) : ∀ t, strip scope owner seen nullable raw n = .ok t →
      IsInside scope n raw t := by
  induction seen, nullable, raw, n using strip_induction scope with
  | empty hempty =>
    rw [strip_empty hempty]
    exact nofun
  | only honly ih =>
    intro t h
    rw [strip_only honly] at h
    exact .head (.only honly) (ih t h)
  | several hseveral =>
    intro t h
    rw [strip_several hseveral] at h
    cases h
    exact .refl
  | keyword =>
    intro t h
    rw [strip_keyword] at h
    split at h
    · cases h
    · cases h
      exact .refl
  | promise ih =>
    intro t h
    rw [strip_promise] at h
    exact .head .promise (ih t h)
  | undeclared hpromise hd =>
    intro t h
    rw [strip_undeclared hpromise hd] at h
    cases h
    exact .refl
  | shape hpromise hd hshape =>
    intro t h
    rw [strip_shape hpromise hd hshape] at h
    cases h
    exact .refl
  | again hpromise hd hshape hseen =>
    rw [strip_again hpromise hd hshape hseen]
    exact nofun
  | followed hpromise hd hshape hseen ih =>
    intro t h
    rw [strip_followed hpromise hd hshape hseen] at h
    exact .renamed (.renamed hpromise hd hshape) hd (ih t h)
  | literal | array | object | function =>
    intro t h
    rw [strip] at h
    cases h
    exact .refl

theorem Strips.isInside (h : Strips scope n t) : IsInside scope n none t :=
  isInside_of_strip scope "" [] false none n t h

theorem Strips.unwraps (h : Strips scope n t) : Relation.ReflTransGen (Unwraps scope) n t.node :=
  h.isInside.unwraps

/-! ### Leaves -/

/-- How a type is expanded: a union member by member, an alias of a union by its body, and anything
else not at all. -/
theorem flatten_cases (seen : List String) (s : Site) (e : TypeExpr) :
    (∃ es, e = .union es) ∨
    (∃ name position d, e = .reference name [] position ∧ scope.alias? name = some d ∧
      d.type.isUnion = true ∧
      flatten scope seen s e = flatten scope (name :: seen) (Site.body name) d.type) ∨
    e.isUnion = false ∧ flatten scope seen s e = [⟨s, e⟩] := by
  induction seen, s, e using flatten_induction scope with
  | union => exact .inl ⟨_, rfl⟩
  | through hd hunion hseen =>
    exact .inr (.inl ⟨_, _, _, rfl, hd, hunion, flatten_alias hd hunion hseen⟩)
  | leaf hleaf => exact .inr (.inr ⟨hleaf.1, flatten_unexpanded hleaf⟩)

/-- A leaf of a union is no body of a declaration. -/
theorem path_ne_nil_of_mem_flatten (seen : List String) (s : Site) (e : TypeExpr) :
    s.path ≠ [] ∨ e.isUnion = true → ∀ l ∈ flatten scope seen s e, l.site.path ≠ [] := by
  induction seen, s, e using flatten_induction scope with
  | union ih =>
    intro _ l hl
    obtain ⟨m, hm, hl⟩ := mem_flatten_union.mp hl
    refine ih m hm (.inl ?_) l hl
    obtain ⟨⟨e, i⟩, -, rfl⟩ := List.mem_map.mp hm
    exact List.cons_ne_nil _ _
  | through hd hunion hseen ih =>
    intro _ l hl
    rw [flatten_alias hd hunion hseen] at hl
    exact ih (.inr hunion) l hl
  | leaf hleaf =>
    intro hpath l hl
    rw [flatten_unexpanded hleaf] at hl
    rw [List.mem_singleton.mp hl]
    exact hpath.resolve_right fun hunion => by cases hleaf.1.symm.trans hunion

theorem path_ne_nil_of_mem_alternatives (h : n.site.path ≠ [] ∨ n.expr.isUnion = true)
    (hl : l ∈ alternatives scope n) : l.site.path ≠ [] := by
  rw [alternatives] at hl
  split at hl
  · exact path_ne_nil_of_mem_flatten [] n.site n.expr h l (List.mem_filter.mp hl).1
  · next hunion =>
    rw [List.mem_singleton.mp hl]
    exact h.resolve_right hunion

theorem exists_eq_object (h : e.isObject = true) : ∃ ps position, e = .object ps position := by
  cases e with
  | object ps position => exact ⟨ps, position, rfl⟩
  | keyword | literal | reference | array | union | function => cases h

/-- An object type is its own only alternative. -/
theorem alternatives_of_isObject (h : n.expr.isObject = true) : alternatives scope n = [n] := by
  obtain ⟨ps, position, he⟩ := exists_eq_object h
  rw [alternatives, if_neg (by rw [he]; exact Bool.false_ne_true)]

/-- An alias that names no shape has no object type as its body. -/
theorem isObject_of_namesShape (h : namesShape scope d = false) : d.type.isObject = false := by
  rw [← Bool.not_eq_true]
  intro hobject
  have hnode : d.node.expr.isObject = true := hobject
  rw [namesShape, alternatives_of_isObject hnode] at h
  cases hnode.symm.trans h

/-- An object type that is left without wrappings is no body of a declaration. -/
theorem path_ne_nil_of_unwraps (h : Relation.ReflTransGen (Unwraps scope) n m)
    (hpath : n.site.path ≠ []) (hobject : m.expr.isObject = true) : m.site.path ≠ [] := by
  cases h.cases_tail with
  | inl heq => exact heq ▸ hpath
  | inr hlast =>
    obtain ⟨l, -, hstep⟩ := hlast
    cases hstep with
    | @only s es _ honly =>
      have hm : m ∈ writtenAlternatives scope ⟨s, .union es⟩ := honly ▸ List.mem_singleton_self m
      obtain ⟨⟨e, i⟩, -, rfl⟩ := List.mem_map.mp (List.mem_filter.mp hm).1
      exact List.cons_ne_nil _ _
    | promise => exact List.cons_ne_nil _ _
    | renamed _ _ hshape => cases hobject.symm.trans (isObject_of_namesShape hshape)

/-! ### References to records -/

theorem not_down_of_isObject (h : e.isObject = true) : ¬Down scope e e' := by
  obtain ⟨ps, position, rfl⟩ := exists_eq_object h
  exact nofun

/-- A name without arguments is no wrapping. -/
theorem ne_promiseName_of_nil (argument : TypeExpr) (h : [] = [argument]) :
    name ≠ promiseName := by
  cases h

/-- A reference to an object type has no wrappings. -/
theorem not_unwraps_of_isObject (hd : scope.alias? name = some d)
    (hobject : d.type.isObject = true) :
    ¬Unwraps scope ⟨s, .reference name [] position⟩ m := by
  intro h
  generalize hn : Node.mk s (.reference name [] position) = n at h
  cases h with
  | only | promise => cases hn
  | renamed _ hd' hshape =>
    cases hn
    obtain rfl := Option.some.inj (hd.symm.trans hd')
    cases hobject.symm.trans (isObject_of_namesShape hshape)

/-- What a reference to an object type is an alternative of is not absent as a whole. -/
theorem admitsOther_of_object (hd : scope.alias? name = some d) (hobject : d.type.isObject = true)
    (h : Relation.ReflTransGen (Down scope) e (.reference name [] position)) :
    AdmitsOther scope e := by
  obtain ⟨ps, position', htype⟩ := exists_eq_object hobject
  refine ⟨d.type, h.tail (.through ne_promiseName_of_nil hd), ?_, ?_,
    fun e' => not_down_of_isObject hobject⟩ <;> rw [htype] <;> rfl

/-- Taking a wrapping off is the only step towards a reference to a record. -/
theorem Unwraps.eq_of_down (h : Unwraps scope ⟨s, e⟩ m) (hdown : Down scope e e')
    (hother : AdmitsOther scope e') : e' = m.expr := by
  cases h with
  | @only _ es _ honly =>
    obtain ⟨i, hi⟩ := mem_site_nodes (down_union.mp hdown) s
    have hm : ⟨s.child i, e'⟩ ∈ writtenAlternatives scope ⟨s, .union es⟩ := by
      refine List.mem_filter.mpr ⟨hi, ?_⟩
      rw [Bool.not_eq_true', ← Bool.not_eq_true]
      exact fun hwhole => not_admitsOther_of_isWhollyNullish hwhole hother
    rw [honly, List.mem_singleton] at hm
    rw [← hm]
  | promise => exact down_promise.mp hdown
  | renamed hpromise hd =>
    obtain ⟨d', hd', rfl⟩ := (down_reference hpromise).mp hdown
    obtain rfl := Option.some.inj (hd.symm.trans hd')
    rfl

end DeclaredSchema
