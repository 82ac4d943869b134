import DeclaredSchema.Proofs.Declaration.Leaves
import Mathlib.Data.List.Nodup

/-!
# What stripping returns

A type is followed inwards, one wrapping at a time: the only alternative of a union that is not
wholly null or undefined, what is promised, the body of an alias that renames a type. The type alone
decides where this leads, so there is one chain of types behind it, with the names of the aliases
that are passed. Stripping returns the end of the chain, and the last name. It fails exactly if the
chain has no end, since it comes to an alias that it has passed, or if it leads to a type that is
wholly null or undefined.

## Main definitions

* `IsAbsent` — a type that is wholly null or undefined
* `Passes`, `ComesTo` — one wrapping is taken off, and several
* `IsStripped` — a type from which no wrapping can be taken off
* `Refuses` — why the chain behind a type has no such type at its end

## Main results

* `isWhollyNullish_iff` — all leaves are null or undefined in types that are absent
* `ComesTo.total`, `ComesTo.acc` — there is one chain, and it comes to an end or to a known alias
* `strip_follows` — when stripping returns, and what; when it fails, and how
-/

namespace DeclaredSchema

/-- The type is wholly null or undefined: it is one of these words, or a union of such types, by name
or not. -/
inductive IsAbsent (scope : Scope) : TypeExpr → Prop
  | keyword {word : TypeKeyword} (h : word.isNullish = true) : IsAbsent scope (.keyword word)
  | union {es : List TypeExpr} (h : ∀ e ∈ es, IsAbsent scope e) : IsAbsent scope (.union es)
  | named {name : String} {position : Position} {d : Alias} (hd : scope.alias? name = some d)
      (hunion : d.type.isUnion = true) (h : IsAbsent scope d.type) :
      IsAbsent scope (.reference name [] position)

/-- One wrapping is taken off a type; it may be an alias, which has a name. -/
inductive Passes (scope : Scope) : Node → Option String → Node → Prop
  | only {s : Site} {es es' : List TypeExpr} {e : TypeExpr} (h : ∀ e ∈ es, IsAbsent scope e)
      (he : ¬IsAbsent scope e) (h' : ∀ e ∈ es', IsAbsent scope e) :
      Passes scope ⟨s, .union (es ++ e :: es')⟩ none ⟨s.child es.length, e⟩
  | promise {s : Site} {e : TypeExpr} {position : Position} :
      Passes scope ⟨s, .reference promiseName [e] position⟩ none ⟨s.child 0, e⟩
  | renamed {s : Site} {name : String} {arguments : List TypeExpr} {position : Position} {d : Alias}
      (hpromise : ∀ e, arguments = [e] → name ≠ promiseName) (hd : scope.alias? name = some d)
      (hshape : namesShape scope d = false) :
      Passes scope ⟨s, .reference name arguments position⟩ (some name) d.node

/-- Wrappings are taken off a type one by one; the names are those of the aliases among them. -/
inductive ComesTo (scope : Scope) : Node → List String → Node → Prop
  | refl {n : Node} : ComesTo scope n [] n
  | head {n m l : Node} {label : Option String} {names : List String}
      (hstep : Passes scope n label m) (h : ComesTo scope m names l) :
      ComesTo scope n (label.toList ++ names) l

/-- No wrapping can be taken off the type. -/
structure IsStripped (scope : Scope) (n : Node) : Prop where
  /-- It is neither null nor undefined. -/
  present : n.isNullish = false
  /-- If it is a union, then two of its members are not wholly null or undefined. -/
  several : ∀ es, n.expr = .union es → ∃ e e', [e, e'].Sublist es ∧ ¬IsAbsent scope e ∧
    ¬IsAbsent scope e'
  /-- It is no promise. -/
  notPromise : ∀ e position, n.expr ≠ .reference promiseName [e] position
  /-- If it is a name of an alias, then of one that names a shape. -/
  shape : ∀ name arguments position d, n.expr = .reference name arguments position →
    scope.alias? name = some d → namesShape scope d = true

/-- Why a type cannot be stripped: what it leads to is wholly null or undefined, or it leads to an
alias for the second time. -/
inductive Refuses (scope : Scope) (owner : String) (n : Node) : DeclarationError → Prop
  | absent {names : List String} {m : Node} (h : ComesTo scope n names m)
      (habsent : IsAbsent scope m.expr) : Refuses scope owner n (noAlternative owner)
  | again {names : List String} {name : String} {d : Alias} (hd : scope.alias? name = some d)
      (h : ComesTo scope n (names ++ [name]) d.node) (hnames : names.Nodup) (hname : name ∈ names) :
      Refuses scope owner n ⟨.aliasOfItself name, name, some d.position⟩

variable {scope : Scope} {n m m' l : Node} {names names' : List String} {name owner : String}
  {label label' : Option String} {e : TypeExpr} {es : List TypeExpr} {s : Site} {d : Alias}
  {seen : List String} {nullable : Bool} {raw : Option String}

/-! ### Absent types -/

theorem isAbsent_of_flatten (seen : List String) (s : Site) (e : TypeExpr) :
    (∀ l ∈ flatten scope seen s e, l.isNullish = true) → IsAbsent scope e := by
  induction seen, s, e using flatten_induction scope with
  | @union seen s es ih =>
    intro h
    refine .union fun e he => ?_
    obtain ⟨i, hi⟩ := mem_site_nodes he s
    exact ih _ hi fun l hl => h l (mem_flatten_union.mpr ⟨_, hi, hl⟩)
  | through hd hunion hseen ih =>
    intro h
    rw [flatten_alias hd hunion hseen] at h
    exact .named hd hunion (ih h)
  | @leaf seen s e hleaf =>
    intro h
    rw [flatten_unexpanded hleaf, List.forall_mem_singleton] at h
    cases e with
    | keyword word => exact .keyword h
    | literal | reference | array | union | object | function => cases h

theorem not_namesUnion_of_isNullish {n : Node} (h : n.isNullish = true) :
    ¬NamesUnion scope name n.expr := by
  rintro ⟨position, d, heq, -⟩
  rw [Node.isNullish, heq] at h
  cases h

/-- An expansion to nothing but null and undefined is the whole one. -/
theorem stopsAt_leaves_of_isNullish {xs : List Stop} (hxs : Unfolds scope [n] xs)
    (h : ∀ x ∈ xs, x.node.isNullish = true) :
    StopsAt scope (fun x => x.node.isNullish = true) [n] (n.leaves scope) :=
  ⟨xs, hxs, IsWholeExpansion.eq_leaves
    ⟨xs, hxs, fun x hx _ => not_namesUnion_of_isNullish (h x hx), rfl⟩, h⟩

/-- An absent type expands to null and undefined. -/
theorem IsAbsent.stopsAt_leaves (h : IsAbsent scope e) (s : Site) :
    StopsAt scope (fun x => x.node.isNullish = true) [⟨s, e⟩] (Node.leaves scope ⟨s, e⟩) := by
  induction h generalizing s with
  | @keyword word h =>
    exact stopsAt_leaves_of_isNullish (.stop rfl .nil) (List.forall_mem_singleton.mpr h)
  | @union es _ ih =>
    have hleaves : ∀ m ∈ s.nodes es,
        StopsAt scope (fun x => x.node.isNullish = true) [m] (m.leaves scope) :=
      fun m hm => ih m.expr (Site.expr_mem_of_mem_nodes hm) m.site
    obtain ⟨xs, hxs, -, hnullish⟩ := stopsAt_flatMap hleaves
    refine stopsAt_leaves_of_isNullish (.union hxs .nil) ?_
    rwa [List.append_nil]
  | @named name position d hd hunion _ ih =>
    obtain ⟨xs, hxs, -, hnullish⟩ := ih (Site.body d.name)
    refine stopsAt_leaves_of_isNullish (.named hd hunion hxs .nil) ?_
    rw [List.append_nil]
    exact List.forall_mem_map.mpr hnullish

/-- **All leaves of a type are null or undefined** if and only if the type is absent. -/
theorem isWhollyNullish_iff : isWhollyNullish scope n = true ↔ IsAbsent scope n.expr := by
  rw [isWhollyNullish, List.all_eq_true]
  constructor
  · exact isAbsent_of_flatten [] n.site n.expr
  · intro h
    obtain ⟨xs, -, hleaves, hnullish⟩ := h.stopsAt_leaves n.site
    rw [← hleaves]
    exact List.forall_mem_map.mpr hnullish

/-! ### One wrapping -/

theorem map_expr_nodes (s : Site) (es : List TypeExpr) : (s.nodes es).map Node.expr = es := by
  rw [Site.nodes, List.map_map]
  exact List.zipIdx_map_fst 0 es

theorem mem_writtenAlternatives_iff : m ∈ writtenAlternatives scope ⟨s, .union es⟩ ↔
    m ∈ s.nodes es ∧ ¬IsAbsent scope m.expr := by
  rw [← isWhollyNullish_iff, Bool.not_eq_true, ← Bool.not_eq_true']
  exact List.mem_filter

theorem isAbsent_of_not_mem {m : Node} (hm : ¬(!isWhollyNullish scope m) = true) :
    IsAbsent scope m.expr := by
  rw [Bool.not_eq_true, Bool.not_eq_false'] at hm
  exact isWhollyNullish_iff.mp hm

/-- A union with one member left passes to that member, and no other union does. -/
theorem passes_union_iff : Passes scope ⟨s, .union es⟩ label m ↔
    label = none ∧ writtenAlternatives scope ⟨s, .union es⟩ = [m] := by
  have hwritten : ∀ es, writtenAlternatives scope ⟨s, .union es⟩ =
      (s.nodes es).filter fun m => !isWhollyNullish scope m := fun _ => rfl
  constructor
  · intro h
    cases h with
    | @only _ es es' e h he h' =>
      have hdropped : ∀ {m : Node}, IsAbsent scope m.expr → (!isWhollyNullish scope m) = false :=
        fun habsent => by rw [isWhollyNullish_iff.mpr habsent]; rfl
      refine ⟨rfl, ?_⟩
      rw [hwritten, nodes_append_cons, filter_append_cons
        (fun m hm => hdropped (h _ (Site.expr_mem_of_mem_nodes hm))) ?_, List.filter_cons_of_pos]
      · rfl
      · rw [Bool.not_eq_true', ← Bool.not_eq_true, isWhollyNullish_iff]
        exact he
      · intro m hm
        obtain ⟨⟨e', i⟩, he', rfl⟩ := List.mem_map.mp hm
        exact hdropped (h' e' (List.fst_mem_of_mem_zipIdx he'))
  · rintro ⟨rfl, h⟩
    rw [hwritten] at h
    obtain ⟨before, after, hnodes, hbefore, hm, hafter⟩ := List.filter_eq_cons_iff.mp h
    have hes : es = before.map Node.expr ++ m.expr :: after.map Node.expr := by
      rw [← map_expr_nodes s es, hnodes, List.map_append, List.map_cons]
    have hplace := hnodes
    rw [hes, nodes_append_cons] at hplace
    obtain ⟨-, hplace⟩ := List.append_inj hplace (by simp)
    have habsent : ∀ {ns : List Node}, (∀ m ∈ ns, ¬(!isWhollyNullish scope m) = true) →
        ∀ e ∈ ns.map Node.expr, IsAbsent scope e := fun h =>
      List.forall_mem_map.mpr fun m hm => isAbsent_of_not_mem (h m hm)
    have hpresent : ¬IsAbsent scope m.expr := by
      rw [← isWhollyNullish_iff, Bool.not_eq_true, ← Bool.not_eq_true']
      exact hm
    have honly := Passes.only (s := s) (habsent hbefore) hpresent
      (habsent (List.filter_eq_nil_iff.mp hafter))
    rwa [(List.cons.inj hplace).1, ← hes] at honly

/-- Two members are left of a union, or more, if two of them are not absent. -/
theorem two_le_length_writtenAlternatives_iff :
    2 ≤ (writtenAlternatives scope ⟨s, .union es⟩).length ↔
      ∃ e e', [e, e'].Sublist es ∧ ¬IsAbsent scope e ∧ ¬IsAbsent scope e' := by
  classical
  have hlength : (writtenAlternatives scope ⟨s, .union es⟩).length =
      (es.filter fun e => decide ¬IsAbsent scope e).length := by
    have hwritten : writtenAlternatives scope ⟨s, .union es⟩ =
        (s.nodes es).filter ((fun e => decide ¬IsAbsent scope e) ∘ Node.expr) :=
      List.filter_congr fun m _ => by
        rw [Function.comp_apply, Bool.eq_iff_iff, decide_eq_true_iff, ← isWhollyNullish_iff,
          Bool.not_eq_true', Bool.not_eq_true]
    rw [hwritten, ← List.length_map Node.expr, ← List.filter_map, map_expr_nodes]
  rw [hlength]
  constructor
  · intro h
    match hfilter : es.filter fun e => decide ¬IsAbsent scope e with
    | [] | [_] => rw [hfilter] at h; simp at h
    | e :: e' :: rest =>
      have hleft : ∀ x ∈ e :: e' :: rest, ¬IsAbsent scope x := fun x hx => by
        rw [← hfilter] at hx
        exact of_decide_eq_true (List.mem_filter.mp hx).2
      refine ⟨e, e', ?_, hleft e (by simp), hleft e' (by simp)⟩
      have hsublist : [e, e'].Sublist (e :: e' :: rest) := by simp
      exact hsublist.trans (hfilter ▸ List.filter_sublist)
  · rintro ⟨e, e', hsublist, he, he'⟩
    have hfilter := (hsublist.filter fun e => decide ¬IsAbsent scope e).length_le
    rwa [List.filter_eq_self.mpr (by simp [he, he'])] at hfilter

/-- **One wrapping at most can be taken off** a type. -/
theorem Passes.unique (h : Passes scope n label m) (h' : Passes scope n label' m') :
    label = label' ∧ m = m' := by
  obtain ⟨s, e⟩ := n
  cases e with
  | union es =>
    obtain ⟨rfl, hm⟩ := passes_union_iff.mp h
    obtain ⟨rfl, hm'⟩ := passes_union_iff.mp h'
    exact ⟨rfl, (List.cons.inj (hm.symm.trans hm')).1⟩
  | reference =>
    cases h with
    | promise =>
      cases h' with
      | promise => exact ⟨rfl, rfl⟩
      | renamed hpromise => exact absurd rfl (hpromise _ rfl)
    | renamed hpromise hd =>
      cases h' with
      | promise => exact absurd rfl (hpromise _ rfl)
      | renamed _ hd' =>
        obtain rfl := Option.some.inj (hd.symm.trans hd')
        exact ⟨rfl, rfl⟩
  | keyword | literal | array | object | function => cases h

/-! ### The chain behind a type -/

/-- A type is behind another if one wrapping less is. -/
def IsBehind (scope : Scope) (m n : Node) : Prop := ∃ label, Passes scope n label m

theorem ComesTo.single (h : Passes scope n label m) : ComesTo scope n label.toList m := by
  have hm := ComesTo.head h .refl
  rwa [List.append_nil] at hm

/-- **There is one chain behind a type**: of two ways inwards, one goes on where the other ends. -/
theorem ComesTo.total (h : ComesTo scope n names m) (h' : ComesTo scope n names' m') :
    (∃ more, ComesTo scope m more m' ∧ names' = names ++ more) ∨
      ∃ more, ComesTo scope m' more m ∧ names = names' ++ more := by
  induction h generalizing names' with
  | refl => exact .inl ⟨names', h', rfl⟩
  | head hstep h ih =>
    cases h' with
    | refl => exact .inr ⟨_, .head hstep h, rfl⟩
    | head hstep' h' =>
      obtain ⟨rfl, rfl⟩ := hstep.unique hstep'
      rcases ih h' with ⟨more, hmore, rfl⟩ | ⟨more, hmore, rfl⟩
      · exact .inl ⟨more, hmore, (List.append_assoc ..).symm⟩
      · exact .inr ⟨more, hmore, (List.append_assoc ..).symm⟩

/-- Where the chain comes to an end, it does so from the start. -/
theorem ComesTo.acc (h : ComesTo scope n names m) (hm : Acc (IsBehind scope) m) :
    Acc (IsBehind scope) n := by
  induction h with
  | refl => exact hm
  | head hstep _ ih =>
    refine .intro _ fun m' ⟨label, hstep'⟩ => ?_
    rw [← (hstep.unique hstep').2]
    exact ih hm

/-- A chain that comes to an end does so from each of its types. -/
theorem ComesTo.acc_of_start (h : ComesTo scope n names m) (hn : Acc (IsBehind scope) n) :
    Acc (IsBehind scope) m := by
  induction h with
  | refl => exact hn
  | head hstep _ ih => exact ih (hn.inv ⟨_, hstep⟩)

theorem ComesTo.eq_or_transGen (h : ComesTo scope n names m) :
    names = [] ∧ n = m ∨ Relation.TransGen (IsBehind scope) m n := by
  induction h with
  | refl => exact .inl ⟨rfl, rfl⟩
  | head hstep _ ih =>
    rcases ih with ⟨-, rfl⟩ | hbehind
    · exact .inr (.single ⟨_, hstep⟩)
    · exact .inr (hbehind.tail ⟨_, hstep⟩)

/-- A chain with an end does not return to where it was. -/
theorem ComesTo.eq_nil_of_acc (h : ComesTo scope n names n) (hn : Acc (IsBehind scope) n) :
    names = [] := by
  rcases h.eq_or_transGen with ⟨hnames, -⟩ | hbehind
  · exact hnames
  · exact absurd hbehind (not_rel_self_of_acc hn.transGen)

/-- The chain goes on from the body of an alias that is passed. -/
theorem ComesTo.from_alias (hd : scope.alias? name = some d) (h : ComesTo scope n names m) :
    ∀ before after, names = before ++ name :: after → ComesTo scope d.node after m := by
  induction h with
  | refl => exact fun before after heq => absurd heq (by simp)
  | @head _ _ _ label names hstep h ih =>
    intro before after heq
    cases hstep with
    | only | promise => exact ih before after heq
    | @renamed _ name' _ _ d' _ hd' =>
      cases before with
      | nil =>
        obtain ⟨rfl, rfl⟩ := List.cons.inj (show name' :: names = name :: after from heq)
        obtain rfl := Option.some.inj (hd.symm.trans hd')
        exact h
      | cons x before =>
        exact ih before after (List.cons.inj (show name' :: names = x :: (before ++ name :: after)
          from heq)).2

/-- **A chain that passes an alias twice has no end.** -/
theorem ComesTo.not_acc (hd : scope.alias? name = some d)
    (h : ComesTo scope n (names ++ [name]) d.node) (hname : name ∈ names) :
    ¬Acc (IsBehind scope) n := by
  intro hacc
  obtain ⟨before, after, rfl⟩ := List.append_of_mem hname
  have hloop := h.from_alias hd before (after ++ [name]) (by simp)
  exact absurd (hloop.eq_nil_of_acc (h.acc_of_start hacc)) (by simp)

/-! ### Ends of chains -/

theorem IsStripped.not_passes (h : IsStripped scope n) : ¬Passes scope n label m := by
  intro hstep
  cases hstep with
  | @only s _ _ _ hes he hes' =>
    have hlength := two_le_length_writtenAlternatives_iff (s := s).mpr (h.several _ rfl)
    rw [(passes_union_iff.mp (.only hes he hes')).2] at hlength
    exact absurd hlength (Nat.not_succ_le_self 1)
  | promise => exact h.notPromise _ _ rfl
  | renamed _ hd hshape => exact Bool.noConfusion (hshape.symm.trans (h.shape _ _ _ _ rfl hd))

theorem IsStripped.acc (h : IsStripped scope n) : Acc (IsBehind scope) n :=
  .intro _ fun _ ⟨_, hstep⟩ => absurd hstep h.not_passes

/-- What is within an absent type is absent. -/
theorem IsAbsent.passes (h : IsAbsent scope n.expr) (hstep : Passes scope n label m) :
    IsAbsent scope m.expr := by
  cases hstep with
  | only _ he =>
    cases h with
    | union h => exact absurd (h _ (by simp)) he
  | promise => cases h
  | renamed _ hd =>
    cases h with
    | named hd' _ h =>
      obtain rfl := Option.some.inj (hd.symm.trans hd')
      exact h

theorem acc_of_isAbsent (h : IsAbsent scope e) (s : Site) : Acc (IsBehind scope) ⟨s, e⟩ := by
  induction h generalizing s with
  | keyword => exact .intro _ fun _ ⟨_, hstep⟩ => by cases hstep
  | union h =>
    refine .intro _ fun _ ⟨_, hstep⟩ => ?_
    cases hstep with
    | only _ he => exact absurd (h _ (by simp)) he
  | named hd _ _ ih =>
    refine .intro _ fun _ ⟨_, hstep⟩ => ?_
    cases hstep with
    | renamed _ hd' =>
      obtain rfl := Option.some.inj (hd.symm.trans hd')
      exact ih _

/-- What an absent type leads to is absent. -/
theorem IsAbsent.follows (h : IsAbsent scope n.expr) (hchain : ComesTo scope n names m) :
    IsAbsent scope m.expr := by
  induction hchain with
  | refl => exact h
  | head hstep _ ih => exact ih (h.passes hstep)

/-- An alias of an absent type names no shape. -/
theorem namesShape_of_isAbsent (h : IsAbsent scope d.type) (hunion : d.type.isUnion = true) :
    namesShape scope d = false := by
  have hwhole : isWhollyNullish scope d.node = true := isWhollyNullish_iff.mpr h
  have halternatives : alternatives scope d.node = [] := by
    rw [alternatives, Alias.node, if_pos hunion]
    exact List.filter_eq_nil_iff.mpr fun l hl => by
      rw [List.all_eq_true.mp hwhole l hl]
      exact Bool.false_ne_true
  rw [namesShape, halternatives]

theorem IsStripped.not_isAbsent (h : IsStripped scope n) : ¬IsAbsent scope n.expr := by
  obtain ⟨s, e⟩ := n
  intro habsent
  cases habsent with
  | keyword hnullish => cases hnullish.symm.trans h.present
  | union hmembers =>
    obtain ⟨e, e', hsublist, he, -⟩ := h.several _ rfl
    exact he (hmembers e (hsublist.subset (List.mem_cons_self ..)))
  | named hd hunion hbody =>
    exact Bool.noConfusion
      ((h.shape _ _ _ _ rfl hd).symm.trans (namesShape_of_isAbsent hbody hunion))

/-- The chain behind a stripped type is at its end. -/
theorem IsStripped.eq_of_follows (h : IsStripped scope n) (hchain : ComesTo scope n names m) :
    names = [] ∧ n = m := by
  cases hchain with
  | refl => exact ⟨rfl, rfl⟩
  | head hstep => exact absurd hstep h.not_passes

/-- **A chain has one stripped type** at most. -/
theorem ComesTo.unique (h : ComesTo scope n names l) (h' : ComesTo scope n names' m)
    (hl : IsStripped scope l) (hm : IsStripped scope m) : names = names' ∧ l = m := by
  rcases h.total h' with ⟨more, hmore, rfl⟩ | ⟨more, hmore, rfl⟩
  · obtain ⟨rfl, rfl⟩ := hl.eq_of_follows hmore
    exact ⟨(List.append_nil _).symm, rfl⟩
  · obtain ⟨rfl, rfl⟩ := hm.eq_of_follows hmore
    exact ⟨List.append_nil _, rfl⟩

/-- Nothing refuses a type with a stripped type at the end of its chain. -/
theorem Refuses.not_follows {error : DeclarationError} (h : Refuses scope owner n error)
    (hl : IsStripped scope l) : ¬ComesTo scope n names l := by
  intro hchain
  cases h with
  | absent h habsent =>
    -- what is behind an absent type is absent, and nothing is behind a stripped one
    rcases h.total hchain with ⟨more, hmore, -⟩ | ⟨more, hmore, -⟩
    · exact hl.not_isAbsent (habsent.follows hmore)
    · obtain ⟨-, rfl⟩ := hl.eq_of_follows hmore
      exact hl.not_isAbsent habsent
  | again hd h _ hname => exact h.not_acc hd hname (hchain.acc hl.acc)

/-- A sequence whose last element only is a repeated one does not go on behind another such. -/
theorem eq_of_repeated_last {α : Type} {xs ys more : List α} {x y : α}
    (h : ys ++ [y] = xs ++ [x] ++ more) (hys : ys.Nodup) (hx : x ∈ xs) : x = y := by
  rcases more.eq_nil_or_concat with rfl | ⟨more, z, rfl⟩
  · rw [List.append_nil] at h
    exact (List.cons.inj (List.append_inj' h rfl).2).1.symm
  · rw [List.concat_eq_append, ← List.append_assoc] at h
    obtain ⟨rfl, -⟩ := List.append_inj' h rfl
    rw [List.append_assoc] at hys
    exact absurd (List.mem_cons_self ..) (List.disjoint_of_nodup_append hys hx)

/-- **A type is refused in one way** only. -/
theorem Refuses.unique {error error' : DeclarationError} (h : Refuses scope owner n error)
    (h' : Refuses scope owner n error') : error = error' := by
  cases h with
  | absent h habsent =>
    cases h' with
    | absent => rfl
    | again hd h' _ hname => exact absurd (h.acc (acc_of_isAbsent habsent _)) (h'.not_acc hd hname)
  | @again names name d hd h hnames hname =>
    cases h' with
    | absent h' habsent => exact absurd (h'.acc (acc_of_isAbsent habsent _)) (h.not_acc hd hname)
    | @again names' name' d' hd' h' hnames' hname' =>
      obtain rfl : name = name' := by
        rcases h.total h' with ⟨more, -, heq⟩ | ⟨more, -, heq⟩
        · exact eq_of_repeated_last heq hnames' hname
        · exact (eq_of_repeated_last heq hnames hname').symm
      obtain rfl := Option.some.inj (hd.symm.trans hd')
      rfl

/-! ### Stripping follows the chain -/

/-- What is said of an outcome of stripping a type, with the aliases in `seen` passed before and the
last name `raw`. -/
inductive Ends (scope : Scope) (owner : String) (seen : List String) (raw : Option String)
    (n : Node) : Except DeclarationError Stripped → Prop
  | stripped {names : List String} {t : Stripped} (h : ComesTo scope n names t.node)
      (hstripped : IsStripped scope t.node) (hraw : t.raw = names.getLast?.or raw) :
      Ends scope owner seen raw n (.ok t)
  | absent {names : List String} {m : Node} (h : ComesTo scope n names m)
      (habsent : IsAbsent scope m.expr) : Ends scope owner seen raw n (.error (noAlternative owner))
  | again {names : List String} {name : String} {d : Alias} (hd : scope.alias? name = some d)
      (h : ComesTo scope n (names ++ [name]) d.node) (hnames : names.Nodup)
      (hnew : ∀ x ∈ names, x ∉ seen) (hname : name ∈ names ∨ name ∈ seen) :
      Ends scope owner seen raw n (.error ⟨.aliasOfItself name, name, some d.position⟩)

theorem Ends.head {outcome : Except DeclarationError Stripped} (hstep : Passes scope n none m)
    (h : Ends scope owner seen raw m outcome) : Ends scope owner seen raw n outcome := by
  cases h with
  | stripped h hstripped hraw => exact .stripped (.head hstep h) hstripped hraw
  | absent h habsent => exact .absent (.head hstep h) habsent
  | @again names _ _ hd h hnames hnew hname =>
    have hchain : ComesTo scope n (names ++ [_]) _ := .head hstep h
    exact .again hd hchain hnames hnew hname

/-- An alias that is passed is the last name until the next one is, and it is known from then on. -/
theorem Ends.renamed {outcome : Except DeclarationError Stripped}
    (hstep : Passes scope n (some name) m) (hname : name ∉ seen)
    (h : Ends scope owner (name :: seen) (some name) m outcome) :
    Ends scope owner seen raw n outcome := by
  cases h with
  | @stripped names _ h hstripped hraw =>
    refine .stripped (.head hstep h) hstripped ?_
    rw [hraw, Option.toList_some, List.singleton_append, List.getLast?_cons, Option.some_or]
    cases names.getLast? <;> rfl
  | absent h habsent => exact .absent (.head hstep h) habsent
  | @again names name' d hd h hnames hnew hknown =>
    have hchain : ComesTo scope n (name :: names ++ [name']) d.node := .head hstep h
    refine .again hd hchain ?_ ?_ ?_
    · exact List.nodup_cons.mpr ⟨fun hmem => hnew name hmem (List.mem_cons_self ..), hnames⟩
    · exact List.forall_mem_cons.mpr
        ⟨hname, fun x hx hseen => hnew x hx (List.mem_cons_of_mem _ hseen)⟩
    · simpa [or_assoc, or_comm, or_left_comm] using hknown

theorem isStripped_of_not_reference (hnullish : n.isNullish = false) (hunion : n.expr.isUnion = false)
    (hreference : ∀ name arguments position, n.expr ≠ .reference name arguments position) :
    IsStripped scope n where
  present := hnullish
  several := fun es heq => by rw [heq] at hunion; cases hunion
  notPromise := fun e position => hreference _ _ position
  shape := fun name arguments position _ heq => absurd heq (hreference name arguments position)

/-- A name that is no promise is stripped, unless it is that of an alias that renames a type. -/
theorem isStripped_of_reference {arguments : List TypeExpr} {position : Position}
    (hpromise : ∀ e, arguments = [e] → name ≠ promiseName)
    (hshape : ∀ d, scope.alias? name = some d → namesShape scope d = true) :
    IsStripped scope ⟨s, .reference name arguments position⟩ where
  present := rfl
  several := nofun
  notPromise := fun e position' heq => by
    obtain ⟨rfl, rfl, -⟩ := TypeExpr.reference.inj heq
    exact hpromise e rfl rfl
  shape := fun _ _ _ d heq hd => by
    obtain ⟨rfl, -⟩ := TypeExpr.reference.inj heq
    exact hshape d hd

/-- **Stripping follows the chain** to its end. -/
theorem ends_of_strip (scope : Scope) (owner : String) (seen : List String) (nullable : Bool)
    (raw : Option String) (n : Node) :
    Ends scope owner seen raw n (strip scope owner seen nullable raw n) := by
  induction seen, nullable, raw, n using strip_induction scope with
  | @empty _ _ _ s es hempty =>
    rw [strip_empty hempty]
    refine .absent .refl (.union fun e he => ?_)
    obtain ⟨i, hi⟩ := mem_site_nodes he s
    by_contra hpresent
    exact absurd (mem_writtenAlternatives_iff.mpr ⟨hi, hpresent⟩) (by simp [hempty])
  | only honly ih =>
    rw [strip_only honly]
    exact ih.head (passes_union_iff.mpr ⟨rfl, honly⟩)
  | several hseveral =>
    rw [strip_several hseveral]
    refine .stripped .refl ⟨rfl, fun es heq => ?_, by simp, by simp⟩ rfl
    obtain rfl := TypeExpr.union.inj heq
    exact two_le_length_writtenAlternatives_iff.mp hseveral
  | keyword =>
    rw [strip_keyword]
    split
    · next hnullish => exact .absent .refl (.keyword hnullish)
    · next hnullish =>
      exact .stripped .refl
        (isStripped_of_not_reference (Bool.eq_false_iff.mpr hnullish) rfl (by simp)) rfl
  | promise ih =>
    rw [strip_promise]
    exact ih.head .promise
  | undeclared hpromise hd =>
    rw [strip_undeclared hpromise hd]
    refine .stripped .refl (isStripped_of_reference hpromise fun d hd' => ?_) rfl
    cases hd.symm.trans hd'
  | shape hpromise hd hshape =>
    rw [strip_shape hpromise hd hshape]
    refine .stripped .refl (isStripped_of_reference hpromise fun d hd' => ?_) rfl
    rwa [← Option.some.inj (hd.symm.trans hd')]
  | @again _ _ _ s name arguments position d hpromise hd hshape hseen =>
    rw [strip_again hpromise hd hshape hseen]
    have hchain : ComesTo scope ⟨s, .reference name arguments position⟩ ([] ++ [name]) d.node :=
      .single (.renamed hpromise hd hshape)
    exact .again hd hchain List.nodup_nil (by simp) (.inr hseen)
  | followed hpromise hd hshape hseen ih =>
    rw [strip_followed hpromise hd hshape hseen]
    exact ih.renamed (.renamed hpromise hd hshape) hseen
  | literal | array | object | function =>
    rw [strip]
    exact .stripped .refl (isStripped_of_not_reference rfl rfl (by simp)) rfl

theorem Ends.refuses {error : DeclarationError} (h : Ends scope owner [] raw n (.error error)) :
    Refuses scope owner n error := by
  cases h with
  | absent h habsent => exact .absent h habsent
  | again hd h hnames _ hname =>
    exact .again hd h hnames (hname.resolve_right List.not_mem_nil)

/-- **What stripping returns.** It ends for every type, whatever circles the aliases make. It returns
the end of the chain behind the type, where that is a stripped type, with the name of the last alias
on the way, if there is one. It fails exactly if the chain leads to a type that is wholly null or
undefined, or to an alias for the second time, and it says which. -/
theorem strip_follows (scope : Scope) (owner : String) (n : Node) :
    (∀ l raw, (∃ nullable, strip scope owner [] false none n = .ok ⟨l, nullable, raw⟩) ↔
      ∃ names, ComesTo scope n names l ∧ IsStripped scope l ∧ raw = names.getLast?) ∧
    ∀ error, strip scope owner [] false none n = .error error ↔ Refuses scope owner n error := by
  have hends := ends_of_strip scope owner [] false none n
  refine ⟨fun l raw => ⟨?_, ?_⟩, fun error => ⟨fun h => ?_, fun h => ?_⟩⟩
  · rintro ⟨nullable, h⟩
    rw [h] at hends
    cases hends with
    | @stripped names _ hchain hstripped hraw =>
      exact ⟨names, hchain, hstripped, hraw.trans (Option.or_none ..)⟩
  · rintro ⟨names, hchain, hstripped, rfl⟩
    cases h : strip scope owner [] false none n with
    | ok t =>
      rw [h] at hends
      cases hends with
      | stripped hchain' hstripped' hraw =>
        obtain ⟨rfl, rfl⟩ := hchain.unique hchain' hstripped hstripped'
        refine ⟨t.nullable, ?_⟩
        rw [← hraw.trans (Option.or_none ..)]
    | error error =>
      rw [h] at hends
      exact absurd hchain (hends.refuses.not_follows hstripped)
  · rw [h] at hends
    exact hends.refuses
  · cases hstrip : strip scope owner [] false none n with
    | ok t =>
      rw [hstrip] at hends
      cases hends with
      | stripped hchain hstripped => exact absurd hchain (h.not_follows hstripped)
    | error error' =>
      rw [hstrip] at hends
      rw [h.unique hends.refuses]

end DeclaredSchema
