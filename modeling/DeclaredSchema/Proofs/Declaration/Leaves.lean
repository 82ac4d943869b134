import DeclaredSchema.Proofs.Declaration.Arity
import DeclaredSchema.Proofs.Declaration.Absence
import DeclaredSchema.Proofs.Declaration.Inheritance

/-!
# The leaves of a type are its expansion

A type is expanded step by step and in order: a union gives way to its members, and the name of an
alias of a union, without arguments, gives way to the body of the alias. An expansion may stop at
any type that is no union. It is whole if it stops at no name that could still give way. A type has
at most one whole expansion, and it has one unless it leads into a circle of aliases of unions. The
leaves of a type are its whole expansion where there is one. Otherwise they are an expansion that
stops at a name only if the alias of that name is being expanded already.

## Main definitions

* `Stop`, `Unfolds`, `StopsAt` — where an expansion stops, and expansions
* `NamesUnion`, `IsWholeExpansion` — what could give way, and expansions where nothing could
* `Inlines`, `HasAcyclicUnions` — no alias of a union leads back to itself

## Main results

* `exists_unfolds` — leaves are an expansion, with names left only where they are being expanded
* `Unfolds.unique`, `Unfolds.acc` — a whole expansion is the only one, and it meets no circle
* `leaves_expand` — what the leaves of a type are
-/

namespace DeclaredSchema

/-- A place at which an expansion stops, with the aliases that were expanded on the way to it,
outermost first. -/
structure Stop where
  path : List String
  node : Node

/-- The same place, seen from a name of the alias within which it was reached. -/
def Stop.behind (name : String) (x : Stop) : Stop := { x with path := name :: x.path }

/-- Types are expanded to the places on the right, in order. -/
inductive Unfolds (scope : Scope) : List Node → List Stop → Prop
  | nil : Unfolds scope [] []
  | union {s : Site} {es : List TypeExpr} {rest : List Node} {xs ys : List Stop}
      (hmembers : Unfolds scope (s.nodes es) xs) (hrest : Unfolds scope rest ys) :
      Unfolds scope (⟨s, .union es⟩ :: rest) (xs ++ ys)
  | named {s : Site} {name : String} {position : Position} {d : Alias} {rest : List Node}
      {xs ys : List Stop} (hd : scope.alias? name = some d) (hunion : d.type.isUnion = true)
      (hbody : Unfolds scope [d.node] xs) (hrest : Unfolds scope rest ys) :
      Unfolds scope (⟨s, .reference name [] position⟩ :: rest) (xs.map (Stop.behind name) ++ ys)
  | stop {n : Node} {rest : List Node} {ys : List Stop} (hn : n.expr.isUnion = false)
      (hrest : Unfolds scope rest ys) : Unfolds scope (n :: rest) (⟨[], n⟩ :: ys)

/-- The type is a name, without arguments, of an alias whose body is a union. -/
def NamesUnion (scope : Scope) (name : String) (e : TypeExpr) : Prop :=
  ∃ position d, e = .reference name [] position ∧ scope.alias? name = some d ∧
    d.type.isUnion = true

/-- No place could give way to anything. -/
def IsWhole (scope : Scope) (xs : List Stop) : Prop :=
  ∀ x ∈ xs, ∀ name, ¬NamesUnion scope name x.node.expr

/-- The leaves are those that a type comes to when all unions in it and all names of unions are
expanded. -/
def IsWholeExpansion (scope : Scope) (n : Node) (leaves : List Node) : Prop :=
  ∃ xs, Unfolds scope [n] xs ∧ IsWhole scope xs ∧ leaves = xs.map Stop.node

/-- One step of an expansion. -/
inductive Inlines (scope : Scope) : TypeExpr → TypeExpr → Prop
  | member {es : List TypeExpr} {e : TypeExpr} (he : e ∈ es) : Inlines scope (.union es) e
  | named {name : String} {position : Position} {d : Alias} (hd : scope.alias? name = some d)
      (hunion : d.type.isUnion = true) : Inlines scope (.reference name [] position) d.type

/-- No alias of a union reaches itself through alternatives of unions. -/
def HasAcyclicUnions (scope : Scope) : Prop :=
  ∀ name position position', ¬Relation.TransGen (Inlines scope) (.reference name [] position)
    (.reference name [] position')

variable {scope : Scope} {n : Node} {ns ms : List Node} {xs xs' ys : List Stop} {x : Stop}
  {seen : List String} {name : String} {s : Site} {e e' : TypeExpr} {position : Position}

/-! ### Expansions -/

theorem Unfolds.append (h : Unfolds scope ns xs) (h' : Unfolds scope ms ys) :
    Unfolds scope (ns ++ ms) (xs ++ ys) := by
  induction h with
  | nil => exact h'
  | union hmembers _ _ ih =>
    rw [List.append_assoc]
    exact .union hmembers ih
  | named hd hunion hbody _ _ ih =>
    rw [List.append_assoc]
    exact .named hd hunion hbody ih
  | stop hn _ ih => exact .stop hn ih

/-- **No expansion stops at a union.** -/
theorem Unfolds.isUnion_eq_false (h : Unfolds scope ns xs) :
    ∀ x ∈ xs, x.node.expr.isUnion = false := by
  induction h with
  | nil => exact nofun
  | union _ _ ih ihrest => exact List.forall_mem_append.mpr ⟨ih, ihrest⟩
  | named _ _ _ _ ih ihrest =>
    exact List.forall_mem_append.mpr ⟨List.forall_mem_map.mpr ih, ihrest⟩
  | stop hn _ ih => exact List.forall_mem_cons.mpr ⟨hn, ih⟩

theorem isWhole_append : IsWhole scope (xs ++ ys) ↔ IsWhole scope xs ∧ IsWhole scope ys :=
  List.forall_mem_append

theorem isWhole_behind : IsWhole scope (xs.map (Stop.behind name)) ↔ IsWhole scope xs :=
  List.forall_mem_map

theorem isWhole_cons : IsWhole scope (x :: xs) ↔
    (∀ name, ¬NamesUnion scope name x.node.expr) ∧ IsWhole scope xs :=
  List.forall_mem_cons

/-- **A type has one whole expansion** at most. -/
theorem Unfolds.unique (h : Unfolds scope ns xs) (h' : Unfolds scope ns xs')
    (hwhole : IsWhole scope xs) (hwhole' : IsWhole scope xs') : xs = xs' := by
  induction h generalizing xs' with
  | nil =>
    cases h'
    rfl
  | union _ _ ih ihrest =>
    obtain ⟨hxs, hys⟩ := isWhole_append.mp hwhole
    cases h' with
    | union hmembers' hrest' =>
      obtain ⟨hxs', hys'⟩ := isWhole_append.mp hwhole'
      rw [ih hmembers' hxs hxs', ihrest hrest' hys hys']
    | stop hn => cases hn
  | named hd hunion _ _ ih ihrest =>
    obtain ⟨hxs, hys⟩ := isWhole_append.mp hwhole
    cases h' with
    | named hd' _ hbody' hrest' =>
      obtain rfl := Option.some.inj (hd.symm.trans hd')
      obtain ⟨hxs', hys'⟩ := isWhole_append.mp hwhole'
      rw [ih hbody' (isWhole_behind.mp hxs) (isWhole_behind.mp hxs'), ihrest hrest' hys hys']
    | stop => exact absurd ⟨_, _, rfl, hd, hunion⟩ ((isWhole_cons.mp hwhole').1 _)
  | stop hn _ ih =>
    obtain ⟨hstop, hys⟩ := isWhole_cons.mp hwhole
    cases h' with
    | union => cases hn
    | named hd hunion => exact absurd ⟨_, _, rfl, hd, hunion⟩ (hstop _)
    | stop _ hrest' => rw [ih hrest' hys (isWhole_cons.mp hwhole').2]

/-! ### Circles -/

/-- The place of a stop is reached from a type that is expanded. -/
theorem Unfolds.reaches (h : Unfolds scope ns xs) :
    ∀ x ∈ xs, ∃ n ∈ ns, Relation.ReflTransGen (Inlines scope) n.expr x.node.expr := by
  induction h with
  | nil => exact nofun
  | union _ _ ih ihrest =>
    refine List.forall_mem_append.mpr ⟨fun x hx => ?_, fun x hx => ?_⟩
    · obtain ⟨m, hm, hreach⟩ := ih x hx
      exact ⟨_, List.mem_cons_self .., .head (.member (Site.expr_mem_of_mem_nodes hm)) hreach⟩
    · obtain ⟨m, hm, hreach⟩ := ihrest x hx
      exact ⟨m, List.mem_cons_of_mem _ hm, hreach⟩
  | named hd hunion _ _ ih ihrest =>
    refine List.forall_mem_append.mpr ⟨List.forall_mem_map.mpr fun x hx => ?_, fun x hx => ?_⟩
    · obtain ⟨m, hm, hreach⟩ := ih x hx
      obtain rfl := List.mem_singleton.mp hm
      exact ⟨_, List.mem_cons_self .., .head (.named hd hunion) hreach⟩
    · obtain ⟨m, hm, hreach⟩ := ihrest x hx
      exact ⟨m, List.mem_cons_of_mem _ hm, hreach⟩
  | stop _ _ ih =>
    refine List.forall_mem_cons.mpr ⟨⟨_, List.mem_cons_self .., .refl⟩, fun x hx => ?_⟩
    obtain ⟨m, hm, hreach⟩ := ih x hx
    exact ⟨m, List.mem_cons_of_mem _ hm, hreach⟩

/-- The way to the place of a stop passes the names on its path. -/
theorem Unfolds.passes (h : Unfolds scope ns xs) :
    ∀ x ∈ xs, ∀ name ∈ x.path, ∃ n ∈ ns, ∃ position,
      Relation.ReflTransGen (Inlines scope) n.expr (.reference name [] position) ∧
      Relation.TransGen (Inlines scope) (.reference name [] position) x.node.expr := by
  induction h with
  | nil => exact nofun
  | union _ _ ih ihrest =>
    refine List.forall_mem_append.mpr ⟨fun x hx name hname => ?_, fun x hx name hname => ?_⟩
    · obtain ⟨m, hm, position, hpass, hreach⟩ := ih x hx name hname
      exact ⟨_, List.mem_cons_self .., position,
        .head (.member (Site.expr_mem_of_mem_nodes hm)) hpass, hreach⟩
    · obtain ⟨m, hm, hpass⟩ := ihrest x hx name hname
      exact ⟨m, List.mem_cons_of_mem _ hm, hpass⟩
  | named hd hunion hbody _ ih ihrest =>
    refine List.forall_mem_append.mpr ⟨List.forall_mem_map.mpr fun x hx name' hname' => ?_,
      fun x hx name' hname' => ?_⟩
    · refine ⟨_, List.mem_cons_self .., ?_⟩
      rcases List.mem_cons.mp hname' with rfl | hname'
      · obtain ⟨m, hm, hreach⟩ := hbody.reaches x hx
        obtain rfl := List.mem_singleton.mp hm
        exact ⟨_, .refl, .head' (.named hd hunion) hreach⟩
      · obtain ⟨m, hm, position, hpass, hreach⟩ := ih x hx name' hname'
        obtain rfl := List.mem_singleton.mp hm
        exact ⟨position, .head (.named hd hunion) hpass, hreach⟩
    · obtain ⟨m, hm, hpass⟩ := ihrest x hx name' hname'
      exact ⟨m, List.mem_cons_of_mem _ hm, hpass⟩
  | stop _ _ ih =>
    refine List.forall_mem_cons.mpr ⟨nofun, fun x hx name hname => ?_⟩
    obtain ⟨m, hm, hpass⟩ := ih x hx name hname
    exact ⟨m, List.mem_cons_of_mem _ hm, hpass⟩

/-- **A whole expansion meets no circle**: all steps from the type come to an end. -/
theorem Unfolds.acc (h : Unfolds scope ns xs) (hwhole : IsWhole scope xs) :
    ∀ n ∈ ns, Acc (Function.swap (Inlines scope)) n.expr := by
  induction h with
  | nil => exact nofun
  | @union s _ _ _ _ _ _ ih ihrest =>
    obtain ⟨hxs, hys⟩ := isWhole_append.mp hwhole
    refine List.forall_mem_cons.mpr ⟨.intro _ fun e he => ?_, ihrest hys⟩
    cases he with
    | member he =>
      obtain ⟨i, hi⟩ := mem_site_nodes he s
      exact ih hxs _ hi
  | named hd _ _ _ ih ihrest =>
    obtain ⟨hxs, hys⟩ := isWhole_append.mp hwhole
    refine List.forall_mem_cons.mpr ⟨.intro _ fun e he => ?_, ihrest hys⟩
    cases he with
    | named hd' =>
      obtain rfl := Option.some.inj (hd.symm.trans hd')
      exact ih (isWhole_behind.mp hxs) _ (List.mem_singleton_self _)
  | @stop n _ _ hn _ ih =>
    obtain ⟨hstop, hys⟩ := isWhole_cons.mp hwhole
    refine List.forall_mem_cons.mpr ⟨.intro _ fun e he => ?_, ih hys⟩
    obtain ⟨s, e'⟩ := n
    cases he with
    | member => cases hn
    | named hd hunion => exact absurd ⟨_, _, rfl, hd, hunion⟩ (hstop _)

/-- Where the same name stands makes no difference to what it leads to. -/
theorem transGen_inlines_of_named {position position' : Position}
    (h : Relation.TransGen (Inlines scope) (.reference name [] position) e) :
    Relation.TransGen (Inlines scope) (.reference name [] position') e := by
  obtain ⟨e', hstep, hreach⟩ := Relation.TransGen.head'_iff.mp h
  cases hstep with
  | named hd hunion => exact .head' (.named hd hunion) hreach

/-! ### Leaves are an expansion -/

/-- What is said of a place at which the leaves of a type stop, where the aliases in `seen` are being
expanded already: no alias is expanded twice on the way, and if the place is the name of a union, its
alias is being expanded. -/
structure IsLeafStop (scope : Scope) (seen : List String) (x : Stop) : Prop where
  nodup : x.path.Nodup
  new : ∀ name ∈ x.path, name ∉ seen
  known : ∀ name, NamesUnion scope name x.node.expr → name ∈ x.path ∨ name ∈ seen

/-- A stop within an alias that had not been expanded before. -/
theorem IsLeafStop.behind (h : IsLeafStop scope (name :: seen) x) (hname : name ∉ seen) :
    IsLeafStop scope seen (x.behind name) where
  nodup := List.nodup_cons.mpr ⟨fun hmem => h.new name hmem (List.mem_cons_self ..), h.nodup⟩
  new := List.forall_mem_cons.mpr
    ⟨hname, fun other hother hseen => h.new other hother (List.mem_cons_of_mem _ hseen)⟩
  known := by
    intro other hother
    rcases h.known other hother with hpath | hseen
    · exact .inl (List.mem_cons_of_mem _ hpath)
    rcases List.mem_cons.mp hseen with rfl | hseen
    · exact .inl (List.mem_cons_self ..)
    · exact .inr hseen

/-- The leaves are where an expansion stops, and all its stops have a property. -/
def StopsAt (scope : Scope) (P : Stop → Prop) (ns leaves : List Node) : Prop :=
  ∃ xs, Unfolds scope ns xs ∧ xs.map Stop.node = leaves ∧ ∀ x ∈ xs, P x

/-- Types are expanded one after the other. -/
theorem stopsAt_flatMap {P : Stop → Prop} {f : Node → List Node}
    (h : ∀ n ∈ ns, StopsAt scope P [n] (f n)) : StopsAt scope P ns (ns.flatMap f) := by
  induction ns with
  | nil => exact ⟨[], .nil, rfl, nofun⟩
  | cons n rest ih =>
    obtain ⟨xs, hxs, hleaves, hstops⟩ := h n (List.mem_cons_self ..)
    obtain ⟨ys, hys, hleaves', hstops'⟩ := ih fun m hm => h m (List.mem_cons_of_mem _ hm)
    refine ⟨xs ++ ys, hxs.append hys, ?_, List.forall_mem_append.mpr ⟨hstops, hstops'⟩⟩
    rw [List.map_append, hleaves, hleaves', List.flatMap_cons]

/-- **Leaves are an expansion**, which leaves a name of a union only where it is being expanded. -/
theorem exists_unfolds (scope : Scope) (seen : List String) (s : Site) (e : TypeExpr) :
    StopsAt scope (IsLeafStop scope seen) [⟨s, e⟩] (flatten scope seen s e) := by
  induction seen, s, e using flatten_induction scope with
  | union ih =>
    obtain ⟨xs, hxs, hleaves, hstops⟩ := stopsAt_flatMap ih
    refine ⟨xs ++ [], .union hxs .nil, ?_, ?_⟩
    · rw [List.append_nil, hleaves, flatten_union]
    · rwa [List.append_nil]
  | @through seen s name position d hd hunion hseen ih =>
    obtain rfl : d.name = name := Scope.name_of_find? (Scope.find?_of_alias? hd)
    obtain ⟨xs, hxs, hleaves, hstops⟩ := ih
    refine ⟨xs.map (Stop.behind d.name) ++ [], .named hd hunion hxs .nil, ?_, ?_⟩
    · rw [List.append_nil, List.map_map, flatten_alias hd hunion hseen, ← hleaves]
      rfl
    · rw [List.append_nil]
      exact List.forall_mem_map.mpr fun x hx => (hstops x hx).behind hseen
  | @leaf seen s e hleaf =>
    refine ⟨[⟨[], ⟨s, e⟩⟩], .stop hleaf.1 .nil, ?_, List.forall_mem_singleton.mpr ?_⟩
    · rw [flatten_unexpanded hleaf]
      rfl
    · refine ⟨List.nodup_nil, nofun, ?_⟩
      rintro name ⟨position, d, heq, hd, hunion⟩
      by_contra hknown
      exact hleaf.2 name position d heq hd ⟨hunion, fun hseen => hknown (.inr hseen)⟩

/-- A union has leaves. -/
theorem flatten_ne_nil (hscope : scope.IsPlural) (seen : List String) (s : Site) (e : TypeExpr) :
    e.All TypeExpr.IsPlural → flatten scope seen s e ≠ [] := by
  induction seen, s, e using flatten_induction scope with
  | @union seen s es ih =>
    intro h
    obtain ⟨hlength, hparts⟩ := TypeExpr.all_union.mp h
    obtain ⟨e, he⟩ := List.exists_mem_of_length_pos (Nat.lt_of_lt_of_le Nat.two_pos hlength)
    obtain ⟨i, hi⟩ := mem_site_nodes he s
    obtain ⟨l, hl⟩ := List.exists_mem_of_ne_nil _ (ih _ hi (hparts e he))
    exact List.ne_nil_of_mem (mem_flatten_union.mpr ⟨_, hi, hl⟩)
  | through hd hunion hseen ih =>
    intro _
    rw [flatten_alias hd hunion hseen]
    exact ih (hscope _ (Scope.mem_of_find? (Scope.find?_of_alias? hd)) _ rfl)
  | leaf hleaf =>
    intro _
    rw [flatten_unexpanded hleaf]
    exact List.cons_ne_nil _ _

/-! ### Whole expansions -/

/-- If no alias that the type leads to reaches itself, then the leaves are its whole expansion. -/
theorem isWholeExpansion_leaves (h : ∀ name position position',
    Relation.ReflTransGen (Inlines scope) n.expr (.reference name [] position) →
    ¬Relation.TransGen (Inlines scope) (.reference name [] position)
      (.reference name [] position')) : IsWholeExpansion scope n (n.leaves scope) := by
  obtain ⟨xs, hxs, hleaves, hstops⟩ := exists_unfolds scope [] n.site n.expr
  refine ⟨xs, hxs, fun x hx name hname => ?_, hleaves.symm⟩
  have hpath : name ∈ x.path := ((hstops x hx).known name hname).resolve_right (List.not_mem_nil)
  obtain ⟨m, hm, position, hpass, hreach⟩ := hxs.passes x hx name hpath
  obtain rfl := List.mem_singleton.mp hm
  obtain ⟨position', d, heq, -⟩ := hname
  exact h name position position' hpass (heq ▸ hreach)

/-- What a type leads to comes to an end, if the type does. -/
theorem acc_of_reaches (h : Acc (Function.swap (Inlines scope)) e)
    (hreach : Relation.ReflTransGen (Inlines scope) e e') :
    Acc (Function.swap (Inlines scope)) e' := by
  induction hreach with
  | refl => exact h
  | tail _ hstep ih => exact ih.inv hstep

/-- **A whole expansion is the leaves**, whatever circles there are elsewhere. -/
theorem IsWholeExpansion.eq_leaves {leaves : List Node} (h : IsWholeExpansion scope n leaves) :
    leaves = n.leaves scope := by
  obtain ⟨xs, hxs, hwhole, rfl⟩ := h
  have hends := hxs.acc hwhole n (List.mem_singleton_self n)
  obtain ⟨ys, hys, hwhole', hleaves⟩ : IsWholeExpansion scope n (n.leaves scope) := by
    refine isWholeExpansion_leaves fun name position position' hpass hcycle => ?_
    have hacc := acc_of_reaches hends (hpass.trans hcycle.to_reflTransGen)
    exact not_rel_self_of_acc hacc.transGen
      (Relation.transGen_swap.mpr (transGen_inlines_of_named hcycle))
  rw [hleaves, hxs.unique hys hwhole hwhole']

/-- What is said of the leaves of a type. -/
structure AreLeaves (scope : Scope) (n : Node) (leaves : List Node) : Prop where
  /-- There are some. -/
  ne_nil : leaves ≠ []
  /-- None of them is a union. -/
  isUnion_eq_false : ∀ l ∈ leaves, l.expr.isUnion = false
  /-- They are the whole expansion of the type, if it has one. -/
  eq_of_isWholeExpansion : ∀ leaves', IsWholeExpansion scope n leaves' → leaves' = leaves
  /-- It has one, if no alias of a union reaches itself. -/
  isWholeExpansion : HasAcyclicUnions scope → IsWholeExpansion scope n leaves
  /-- In any case they are where an expansion stops that expands no alias twice on the way to a
  place, and leaves the name of a union only where its alias is being expanded on that way. -/
  stops : ∃ xs, Unfolds scope [n] xs ∧ xs.map Stop.node = leaves ∧
    ∀ x ∈ xs, x.path.Nodup ∧ ∀ name, NamesUnion scope name x.node.expr → name ∈ x.path

/-- **The leaves of a type are its expansion.** This holds of all types and aliases whose unions have
at least two members, and no others are read (`Grammar.isPlural_of_parse`). -/
theorem leaves_expand (hscope : scope.IsPlural) (hn : n.expr.All TypeExpr.IsPlural) :
    AreLeaves scope n (n.leaves scope) := by
  obtain ⟨xs, hxs, hleaves, hstops⟩ := exists_unfolds scope [] n.site n.expr
  have hleaves : xs.map Stop.node = n.leaves scope := hleaves
  refine ⟨flatten_ne_nil hscope [] n.site n.expr hn, fun l hl => ?_,
    fun _ => IsWholeExpansion.eq_leaves, fun hacyclic => ?_, xs, hxs, hleaves, fun x hx => ?_⟩
  · rw [← hleaves] at hl
    obtain ⟨x, hx, rfl⟩ := List.mem_map.mp hl
    exact hxs.isUnion_eq_false x hx
  · exact isWholeExpansion_leaves fun name position position' _ => hacyclic name position position'
  · exact ⟨(hstops x hx).nodup, fun name hname =>
      ((hstops x hx).known name hname).resolve_right List.not_mem_nil⟩

/-- Two aliases of unions that lead to each other, and one in which a union is nested. -/
def circularText : String := "type A = 'a' | B\ntype B = A | ('b' | C)\ntype C = 'c' | null"

def circularUnit : SourceUnit where
  imports := []
  declarations := [
    .typeAlias ⟨"A", .union [.literal (.str "a"), .reference "B" [] ⟨1, 16⟩], none, ⟨1, 6⟩⟩,
    .typeAlias ⟨"B", .union [.reference "A" [] ⟨2, 10⟩,
      .union [.literal (.str "b"), .reference "C" [] ⟨2, 21⟩]], none, ⟨2, 6⟩⟩,
    .typeAlias ⟨"C", .union [.literal (.str "c"), .keyword .null], none, ⟨3, 6⟩⟩]

theorem parse_circularText : SourceUnit.parse circularText = .ok circularUnit := by
  rw [SourceUnit.parse]
  conv in scan _ => cbv
  rfl

/-- A reference to the first of them. -/
def circularNode : Node := ⟨⟨"Q", [0]⟩, .reference "A" [] ⟨4, 18⟩⟩

example : (circularNode.leaves circularUnit.declarations).map Node.expr =
    [.literal (.str "a"), .reference "A" [] ⟨2, 10⟩, .literal (.str "b"), .literal (.str "c"),
      .keyword .null] := by
  cbv

theorem leaves_expand_circularNode :
    Scope.IsPlural circularUnit.declarations ∧ circularNode.expr.All TypeExpr.IsPlural ∧
    AreLeaves circularUnit.declarations circularNode
      (circularNode.leaves circularUnit.declarations) := by
  have hscope := Grammar.isPlural_of_parse parse_circularText
  have hn : circularNode.expr.All TypeExpr.IsPlural := TypeExpr.all_reference.mpr ⟨trivial, nofun⟩
  exact ⟨hscope, hn, leaves_expand hscope hn⟩

end DeclaredSchema
