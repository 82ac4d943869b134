import DeclaredSchema.Proofs.Declaration.Inheritance
import DeclaredSchema.Proofs.Declaration.Size
import DeclaredSchema.Proofs.Declaration.Unwrapping

/-!
# Unions within unions

A type can be a union without being written as one: it may be a promise of a union, or the name of
an alias whose body is a union, or leads to one. In the whole expansion of a type all such unions
give way to their own alternatives, at any depth and in order. The flattening of a union expands
less: it looks into the unions that are written and into names, without arguments, of aliases of
unions. The two agree where nothing that the flattening leaves is a union. That is so if each member
of a union that is a union is openly one, and no alias leads back to itself.

## Main definitions

* `Opens` — what is behind a promise or a name
* `Expands` — the whole expansion of types
* `HidesNoUnion` — no alternative of a union is a union
* `ShowsUnions`, `HasAcyclicAliases` — unions are open, and no alias leads to itself
* `EndsBelow` — all ways down from a type end

## Main results

* `expands_alternatives_iff` — when the alternatives of a union are its whole expansion
* `ShowsUnions.hidesNoUnion` — unions that are open are not hidden
-/

namespace DeclaredSchema

/-- One step behind a type: a promise is looked into, or an alias is replaced by its body. -/
inductive Opens (scope : Scope) : Node → Node → Prop
  | promise {s : Site} {e : TypeExpr} {position : Position} :
      Opens scope ⟨s, .reference promiseName [e] position⟩ ⟨s.child 0, e⟩
  | named {s : Site} {name : String} {arguments : List TypeExpr} {position : Position} {d : Alias}
      (hpromise : ∀ e, arguments = [e] → name ≠ promiseName) (hd : scope.alias? name = some d) :
      Opens scope ⟨s, .reference name arguments position⟩ d.node

/-- There is no union behind the type, and it is none itself. -/
def IsNoUnion (scope : Scope) (n : Node) : Prop :=
  ∀ u, Relation.ReflTransGen (Opens scope) n u → u.expr.isUnion = false

/-- The types besides null and undefined to which types come when every union among them is
expanded, be it behind promises and names. -/
inductive Expands (scope : Scope) : List Node → List Node → Prop
  | nil : Expands scope [] []
  | union {n : Node} {s : Site} {es : List TypeExpr} {rest xs ys : List Node}
      (hn : Relation.ReflTransGen (Opens scope) n ⟨s, .union es⟩)
      (hmembers : Expands scope (s.nodes es) xs) (hrest : Expands scope rest ys) :
      Expands scope (n :: rest) (xs ++ ys)
  | absent {n : Node} {rest ys : List Node} (hn : n.isNullish = true)
      (hrest : Expands scope rest ys) : Expands scope (n :: rest) ys
  | single {n : Node} {rest ys : List Node} (hn : n.isNullish = false)
      (hsingle : IsNoUnion scope n) (hrest : Expands scope rest ys) :
      Expands scope (n :: rest) (n :: ys)

/-- No union of several alternatives has one behind which there is a union. -/
def HidesNoUnion (scope : Scope) : Prop :=
  ∀ n, IsAt scope n → 2 ≤ (alternatives scope n).length →
    ∀ m ∈ alternatives scope n, IsNoUnion scope m

/-- No alias leads to itself through unions, promises and other aliases. -/
def HasAcyclicAliases (scope : Scope) : Prop :=
  ∀ name d, scope.alias? name = some d → ¬Relation.TransGen (Down scope) d.type d.type

variable {scope : Scope} {n m m' : Node} {ns ms xs ys : List Node} {s : Site} {e : TypeExpr}

/-! ### Expansions -/

theorem Expands.append (h : Expands scope ns xs) (h' : Expands scope ms ys) :
    Expands scope (ns ++ ms) (xs ++ ys) := by
  induction h with
  | nil => exact h'
  | union hn hmembers _ _ ih =>
    rw [List.append_assoc]
    exact .union hn hmembers ih
  | absent hn _ ih => exact .absent hn ih
  | single hn hsingle _ ih => exact .single hn hsingle ih

theorem expands_flatMap {f : Node → List Node} (h : ∀ n ∈ ns, Expands scope [n] (f n)) :
    Expands scope ns (ns.flatMap f) := by
  induction ns with
  | nil => exact .nil
  | cons n rest ih =>
    exact (h n (List.mem_cons_self ..)).append (ih fun m hm => h m (List.mem_cons_of_mem _ hm))

/-- **No alternative of a whole expansion is a union.** -/
theorem Expands.not_union (h : Expands scope ns xs) : ∀ x ∈ xs, IsNoUnion scope x := by
  induction h with
  | nil => exact nofun
  | union _ _ _ ih ihrest =>
    intro x hx
    rcases List.mem_append.mp hx with hx | hx
    · exact ih x hx
    · exact ihrest x hx
  | absent _ _ ih => exact ih
  | single _ hsingle _ ih =>
    intro x hx
    rcases List.mem_cons.mp hx with rfl | hx
    · exact hsingle
    · exact ih x hx

/-- What is behind a union is expanded in its place. -/
theorem Expands.behind (hstep : Opens scope n m) (hunion : m.expr.isUnion = true)
    (h : Expands scope [m] xs) : Expands scope [n] xs := by
  cases h with
  | union hm hmembers hrest => exact .union (.head hstep hm) hmembers hrest
  | absent hm =>
    obtain ⟨s, e⟩ := m
    cases e with
    | union => cases hm
    | keyword | literal | reference | array | object | function => cases hunion
  | single _ hsingle => cases hunion.symm.trans (hsingle m .refl)

/-! ### Flattening -/

theorem expands_flatten (seen : List String) (s : Site) (e : TypeExpr) :
    (∀ m ∈ (flatten scope seen s e).filter fun m => !m.isNullish, IsNoUnion scope m) →
      Expands scope [⟨s, e⟩] ((flatten scope seen s e).filter fun m => !m.isNullish) := by
  induction seen, s, e using flatten_induction scope with
  | @union seen s es ih =>
    intro hsingle
    rw [flatten_union, List.filter_flatMap] at hsingle ⊢
    rw [← List.append_nil (List.flatMap _ _)]
    exact .union .refl (expands_flatMap fun m hm =>
      ih m hm fun x hx => hsingle x (List.mem_flatMap.mpr ⟨m, hm, hx⟩)) .nil
  | through hd hunion hseen ih =>
    intro hsingle
    rw [flatten_alias hd hunion hseen] at hsingle ⊢
    obtain rfl := Scope.name_of_find? (Scope.find?_of_alias? hd)
    exact .behind (.named ne_promiseName_of_nil hd) hunion (ih hsingle)
  | @leaf seen s e hleaf =>
    intro hsingle
    rw [flatten_unexpanded hleaf] at hsingle ⊢
    cases hnull : Node.isNullish ⟨s, e⟩ with
    | true =>
      rw [List.filter_cons_of_neg (by rw [hnull]; exact Bool.false_ne_true)]
      exact .absent hnull .nil
    | false =>
      rw [List.filter_cons_of_pos (by rw [hnull]; rfl)] at hsingle ⊢
      exact .single hnull (hsingle _ (List.mem_cons_self ..)) .nil

/-- **The alternatives of a union** are its whole expansion exactly if none of them is a union. -/
theorem expands_alternatives_iff (hunion : n.expr.isUnion = true) :
    Expands scope [n] (alternatives scope n) ↔
      ∀ m ∈ alternatives scope n, IsNoUnion scope m := by
  refine ⟨Expands.not_union, fun h => ?_⟩
  rw [alternatives, if_pos hunion] at h ⊢
  exact expands_flatten [] n.site n.expr h

/-- Only unions have several alternatives. -/
theorem isUnion_of_two_le (h : 2 ≤ (alternatives scope n).length) : n.expr.isUnion = true := by
  by_contra hunion
  rw [alternatives, if_neg hunion] at h
  exact absurd h (by simp)

/-! ### What is behind a type -/

/-- There is one step at most behind a type. -/
theorem opens_rightUnique : Relator.RightUnique (Opens scope) := by
  intro n m m' h h'
  cases h with
  | promise =>
    cases h' with
    | promise => rfl
    | named hpromise => exact absurd rfl (hpromise _ rfl)
  | named hpromise hd =>
    cases h' with
    | promise => exact absurd rfl (hpromise _ rfl)
    | named _ hd' =>
      obtain rfl := Option.some.inj (hd.symm.trans hd')
      rfl

/-- There is one end behind a type. -/
theorem eq_of_opens (h : Relation.ReflTransGen (Opens scope) n m)
    (h' : Relation.ReflTransGen (Opens scope) n m') (hend : ∀ x, ¬Opens scope m x)
    (hend' : ∀ x, ¬Opens scope m' x) : m = m' := by
  rcases h.total_of_right_unique opens_rightUnique h' with hgoes | hgoes
  · exact ((Relation.reflTransGen_iff_eq hend).mp hgoes).symm
  · exact (Relation.reflTransGen_iff_eq hend').mp hgoes

theorem not_opens_of_alias? {s : Site} {name : String} {arguments : List TypeExpr}
    {position : Position} (hpromise : ∀ e, arguments = [e] → name ≠ promiseName)
    (hd : scope.alias? name = none) : ¬Opens scope ⟨s, .reference name arguments position⟩ m := by
  intro hstep
  cases hstep with
  | promise => exact hpromise _ rfl rfl
  | named _ hd' => cases hd.symm.trans hd'

/-- Where there is no union, wrappings are promises and names. -/
theorem IsNoUnion.opens (h : IsNoUnion scope n)
    (hunwraps : Relation.ReflTransGen (Unwraps scope) n m) :
    Relation.ReflTransGen (Opens scope) n m := by
  induction hunwraps with
  | refl => exact .refl
  | tail _ hstep ih =>
    cases hstep with
    | only => cases h _ ih
    | promise => exact ih.tail .promise
    | renamed hpromise hd _ => exact ih.tail (.named hpromise hd)

/-! ### Unions that hide nothing -/

/-- The type is written as a union, or it is the name of an alias that is. -/
def IsOpenUnion (scope : Scope) (e : TypeExpr) : Prop :=
  e.isUnion = true ∨ ∃ name position d, e = .reference name [] position ∧
    scope.alias? name = some d ∧ d.type.isUnion = true

/-- Each member of a union of the file that is a union is openly one. -/
def ShowsUnions (scope : Scope) : Prop :=
  ∀ s es, IsAt scope ⟨s, .union es⟩ → ∀ m ∈ s.nodes es,
    IsOpenUnion scope m.expr ∨ IsNoUnion scope m

/-- An alias that is being expanded leads to what is expanded in it. -/
def LeadsFrom (scope : Scope) (seen : List String) (e : TypeExpr) : Prop :=
  ∀ name ∈ seen, ∀ d, scope.alias? name = some d → Relation.ReflTransGen (Down scope) d.type e

theorem isNoUnion_of_mem_flatten (hacyclic : HasAcyclicAliases scope) (hshows : ShowsUnions scope)
    (seen : List String) (s : Site) (e : TypeExpr) : IsAt scope ⟨s, e⟩ → LeadsFrom scope seen e →
      IsOpenUnion scope e ∨ IsNoUnion scope ⟨s, e⟩ →
      ∀ m ∈ flatten scope seen s e, IsNoUnion scope m := by
  induction seen, s, e using flatten_induction scope with
  | @union seen s es ih =>
    intro hat hfrom _ m hm
    rw [flatten_union] at hm
    obtain ⟨member, hmember, hm⟩ := List.mem_flatMap.mp hm
    refine ih member hmember (isAt_of_mem_nodes hat hmember) ?_
      (hshows s es hat member hmember) m hm
    intro name hname d hd
    exact (hfrom name hname d hd).tail (.member (Site.expr_mem_of_mem_nodes hmember))
  | @through seen s name position d hd hunion hseen ih =>
    intro _ hfrom _
    rw [flatten_alias hd hunion hseen]
    obtain rfl : d.name = name := Scope.name_of_find? (Scope.find?_of_alias? hd)
    refine ih (isAt_alias hd) ?_ (.inl (.inl hunion))
    intro other hother d' hd'
    rcases List.mem_cons.mp hother with rfl | hother
    · obtain rfl := Option.some.inj (hd.symm.trans hd')
      exact .refl
    · exact (hfrom other hother d' hd').tail (.alias hd)
  | @leaf seen s e hleaf =>
    intro _ hfrom hcase m hm
    rw [flatten_unexpanded hleaf, List.mem_singleton] at hm
    rw [hm]
    refine hcase.resolve_left ?_
    rintro (hunion | ⟨name, position, d, rfl, hd, hunion⟩)
    · cases hleaf.1.symm.trans hunion
    · -- the alias is being expanded, so it leads to itself
      have hknown : name ∈ seen := by
        by_contra hnew
        exact hleaf.2 name position d rfl hd ⟨hunion, hnew⟩
      exact hacyclic name d hd (.tail' (hfrom name hknown d hd) (.alias hd))

/-- **Unions that are shown** are not hidden, as long as no alias leads to itself. -/
theorem ShowsUnions.hidesNoUnion (h : ShowsUnions scope) (hacyclic : HasAcyclicAliases scope) :
    HidesNoUnion scope := by
  intro n hat hlength m hm
  have hunion := isUnion_of_two_le hlength
  rw [alternatives, if_pos hunion] at hm
  exact isNoUnion_of_mem_flatten hacyclic h [] n.site n.expr hat (List.forall_mem_nil _)
    (.inl (.inl hunion)) m (List.mem_filter.mp hm).1

/-- The members of the unions of a file. -/
def Scope.unions (scope : Scope) : List (List TypeExpr) :=
  scope.nodes.filterMap fun n => match n.expr with
    | .union es => some es
    | _ => none

theorem mem_unions_of_isAt {es : List TypeExpr} (h : IsAt scope ⟨s, .union es⟩) :
    es ∈ scope.unions :=
  List.mem_filterMap.mpr ⟨_, mem_nodes_of_isAt h, rfl⟩

/-- A plain member of a union is openly a union, or none. -/
theorem IsPlain.isOpenUnion_or (h : IsPlain scope e) :
    IsOpenUnion scope e ∨ IsNoUnion scope ⟨s, e⟩ := by
  have hend : (∀ m, ¬Opens scope ⟨s, e⟩ m) → e.isUnion = false → IsNoUnion scope ⟨s, e⟩ := by
    intro hend hunion m hm
    rw [(Relation.reflTransGen_iff_eq hend).mp hm]
    exact hunion
  cases e with
  | union es => exact .inl (.inl rfl)
  | keyword | literal | array | object | function => exact .inr (hend nofun rfl)
  | reference name arguments position =>
    cases hd : scope.alias? name with
    | none => exact .inr (hend (fun _ => not_opens_of_alias? h.1 hd) rfl)
    | some d =>
      obtain ⟨rfl, hunion⟩ := h.2 d hd
      exact .inl (.inr ⟨name, position, d, rfl, hd, hunion⟩)

/-- Plain unions are shown. -/
theorem showsUnions_of_isPlain (h : ∀ es ∈ scope.unions, ∀ e ∈ es, IsPlain scope e) :
    ShowsUnions scope := fun _ es hat m hm =>
  (h es (mem_unions_of_isAt hat) m.expr (Site.expr_mem_of_mem_nodes hm)).isOpenUnion_or

/-! ### Aliases that come to an end -/

/-- All ways down from the type end. -/
def EndsBelow (scope : Scope) (e : TypeExpr) : Prop := Acc (Function.swap (Down scope)) e

theorem EndsBelow.union {es : List TypeExpr} (h : ∀ e ∈ es, EndsBelow scope e) :
    EndsBelow scope (.union es) :=
  .intro _ fun e he => h e (down_union.mp he)

theorem EndsBelow.undeclared {name : String} {position : Position} (hd : scope.alias? name = none) :
    EndsBelow scope (.reference name [] position) := by
  refine .intro _ fun e he => ?_
  obtain ⟨d, hd', -⟩ := (down_reference ne_promiseName_of_nil).mp he
  cases hd.symm.trans hd'

theorem EndsBelow.named {name : String} {position : Position} {d : Alias}
    (hd : scope.alias? name = some d) (h : EndsBelow scope d.type) :
    EndsBelow scope (.reference name [] position) := by
  refine .intro _ fun e he => ?_
  obtain ⟨d', hd', rfl⟩ := (down_reference ne_promiseName_of_nil).mp he
  obtain rfl := Option.some.inj (hd.symm.trans hd')
  exact h

theorem hasAcyclicAliases_of_endsBelow (h : ∀ d, .typeAlias d ∈ scope → EndsBelow scope d.type) :
    HasAcyclicAliases scope := by
  intro name d hd hcycle
  have hends := h d (Scope.mem_of_find? (Scope.find?_of_alias? hd))
  exact not_rel_self_of_acc hends.transGen (Relation.transGen_swap.mpr hcycle)

end DeclaredSchema
