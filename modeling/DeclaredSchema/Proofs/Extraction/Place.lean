import DeclaredSchema.Declaration.Lineage
import DeclaredSchema.Declaration.Strip

/-!
# What stands at a place

The walks of extraction go from a type expression to others: to its children, to the bodies of the
aliases that it names, to the members that an interface inherits. Each of them hands on an
expression together with its site, and the site says where in the file the expression stands. So a
site is as good as an identity: two expressions that are handed on with one site are the same.

## Main definitions

* `Scope.exprAt?` — the expression at a site
* `IsAt` — a type expression stands where its site says
* `IsUnexpanded` — a type is its own only leaf
* `IsWritten` — a member is one of an object type of the file

## Main results

* `isAt_of_mem_alternatives`, `Strips.isAt`, `isAt_of_mem_lineage` — the walks keep to the places
* `strips_of_strip` — for whom a type is stripped only matters to messages
* `flatten_induction`, `strip_induction` — what the walks do with a type, one step after the other
* `two_le_length_alternatives` — a union that cannot be stripped has two alternatives
-/

namespace DeclaredSchema

/-! ### Places -/

/-- The `i`-th child of an expression. A function has its result first, then its parameters. -/
def TypeExpr.child? (i : Nat) : TypeExpr → Option TypeExpr
  | .array element => if i = 0 then some element else none
  | .union members => members[i]?
  | .object ps _ => ps[i]?.map Property.type
  | .reference _ arguments _ => arguments[i]?
  | .function parameters result => (result :: parameters.map Parameter.type)[i]?
  | .keyword _ | .literal _ => none

/-- The body of a declaration. -/
def Declaration.body? : Declaration → Option TypeExpr
  | .interface d => some (.object d.members d.position)
  | .typeAlias d => some d.type
  | .enumeration _ => none

/-- The expression at a site. -/
def Scope.exprAt? (scope : Scope) (s : Site) : Option TypeExpr :=
  s.path.foldr (fun i e => e.bind (TypeExpr.child? i))
    ((scope.find? s.declaration).bind Declaration.body?)

/-- A type expression stands where its site says. -/
def IsAt (scope : Scope) (n : Node) : Prop := scope.exprAt? n.site = some n.expr

variable {scope : Scope} {n m : Node} {s : Site} {e : TypeExpr} {i : Nat} {owner : String}

/-- Two expressions that are handed on with one site are the same. -/
theorem IsAt.unique {e' : TypeExpr} (h : IsAt scope ⟨s, e⟩) (h' : IsAt scope ⟨s, e'⟩) : e = e' :=
  Option.some.inj (h.symm.trans h')

theorem exprAt?_child (h : scope.exprAt? s = some e) :
    scope.exprAt? (s.child i) = e.child? i := by
  have hstep : scope.exprAt? (s.child i) = (scope.exprAt? s).bind (TypeExpr.child? i) := rfl
  rw [hstep, h, Option.bind_some]

theorem isAt_body {name : String} {d : Declaration} (h : scope.find? name = some d)
    (hbody : d.body? = some e) : IsAt scope ⟨Site.body name, e⟩ := by
  have hsite : scope.exprAt? (Site.body name) = (scope.find? name).bind Declaration.body? := rfl
  rw [IsAt, hsite, h, Option.bind_some, hbody]

theorem isAt_alias {name : String} {d : Alias} (h : scope.alias? name = some d) :
    IsAt scope d.node := by
  have hfind := Scope.find?_of_alias? h
  have hname : d.name = name := Scope.name_of_find? hfind
  rw [Alias.node, hname]
  exact isAt_body hfind rfl

/-- What holds of the bodies of declarations, and of the children of what it holds of, holds wherever
a type expression stands. -/
theorem IsAt.induction {P : TypeExpr → Prop}
    (hbody : ∀ d ∈ scope, ∀ e, d.body? = some e → P e)
    (hchild : ∀ e, P e → ∀ i e', e.child? i = some e' → P e') (h : IsAt scope ⟨s, e⟩) : P e := by
  obtain ⟨name, path⟩ := s
  induction path generalizing e with
  | nil =>
    obtain ⟨d, hd, he⟩ := Option.bind_eq_some_iff.mp h
    exact hbody d (Scope.mem_of_find? hd) e he
  | cons i path ih =>
    obtain ⟨parent, hparent, he⟩ := Option.bind_eq_some_iff.mp h
    exact hchild parent (ih hparent) i e he

theorem isAt_of_mem_nodes {es : List TypeExpr} (h : scope.exprAt? s = some (.union es))
    (hm : m ∈ s.nodes es) : IsAt scope m := by
  simp only [Site.nodes, List.mem_map] at hm
  obtain ⟨⟨e, i⟩, he, rfl⟩ := hm
  rw [IsAt, exprAt?_child h, TypeExpr.child?]
  exact List.mem_zipIdx_iff_getElem?.mp he

/-- The members of a union around one of them. -/
theorem nodes_append_cons {before after : List TypeExpr} :
    s.nodes (before ++ e :: after) = s.nodes before ++ ⟨s.child before.length, e⟩ ::
      (after.zipIdx (before.length + 1)).map fun (e, i) => ⟨s.child i, e⟩ := by
  rw [Site.nodes, List.zipIdx_append, List.map_append, List.zipIdx_cons, List.map_cons,
    Nat.zero_add, Site.nodes]

/-- What a filter leaves of a list is what it leaves of the part that is not all dropped. -/
theorem filter_append_cons {α : Type} {p : α → Bool} {xs ys : List α} {x : α}
    (hxs : ∀ y ∈ xs, p y = false) (hys : ∀ y ∈ ys, p y = false) :
    (xs ++ x :: ys).filter p = [x].filter p := by
  have hnil : ∀ {zs : List α}, (∀ y ∈ zs, p y = false) → zs.filter p = [] := fun h =>
    List.filter_eq_nil_iff.mpr fun y hy => by rw [h y hy]; exact Bool.false_ne_true
  rw [List.filter_append, hnil hxs, List.nil_append, ← List.singleton_append, List.filter_append,
    hnil hys, List.append_nil]

/-- The type of a member stands at the site of its signature. -/
theorem isAt_of_mem_signatures {ps : List (Property TypeExpr)} {position : Position}
    (h : scope.exprAt? s = some (.object ps position)) {sig : Signature}
    (hsig : sig ∈ s.signatures owner ps) : IsAt scope ⟨sig.site, sig.property.type⟩ := by
  simp only [Site.signatures, List.mem_map] at hsig
  obtain ⟨⟨p, i⟩, hp, rfl⟩ := hsig
  rw [IsAt, exprAt?_child h, TypeExpr.child?, List.mem_zipIdx_iff_getElem?.mp hp, Option.map_some]

/-! ### Unions -/

section Equations

variable {seen : List String} {name : String} {position : Position} {d : Alias}

theorem flatten_alias (hd : scope.alias? name = some d) (hunion : d.type.isUnion = true)
    (hseen : name ∉ seen) :
    flatten scope seen s (.reference name [] position) =
      flatten scope (name :: seen) (Site.body name) d.type := by
  rw [flatten]
  split
  · next d' hd' =>
    obtain rfl := Option.some.inj (hd.symm.trans hd')
    rw [dif_pos ⟨hunion, hseen⟩]
  · next hnone =>
    rw [hd] at hnone
    cases hnone

/-- An alias that is expanded already, or that is none of a union, stays as it is. -/
theorem flatten_known (hd : scope.alias? name = some d)
    (hseen : ¬(d.type.isUnion = true ∧ name ∉ seen)) :
    flatten scope seen s (.reference name [] position) = [⟨s, .reference name [] position⟩] := by
  rw [flatten]
  split
  · next d' hd' =>
    obtain rfl := Option.some.inj (hd.symm.trans hd')
    rw [dif_neg hseen]
  · rfl

theorem flatten_other (hd : scope.alias? name = none) :
    flatten scope seen s (.reference name [] position) = [⟨s, .reference name [] position⟩] := by
  rw [flatten]
  split
  · next d' hd' =>
    rw [hd] at hd'
    cases hd'
  · rfl

end Equations

/-- A type that is its own only leaf: it is no union, and no alias of a union that has not been
expanded yet. -/
def IsUnexpanded (scope : Scope) (seen : List String) (e : TypeExpr) : Prop :=
  e.isUnion = false ∧ ∀ name position d, e = .reference name [] position →
    scope.alias? name = some d → ¬(d.type.isUnion = true ∧ name ∉ seen)

theorem flatten_unexpanded {seen : List String} (h : IsUnexpanded scope seen e) :
    flatten scope seen s e = [⟨s, e⟩] := by
  cases e with
  | union es => cases h.1
  | reference name arguments position =>
    cases arguments with
    | nil =>
      cases hd : scope.alias? name with
      | none => exact flatten_other hd
      | some d => exact flatten_known hd (h.2 name position d rfl hd)
    | cons argument rest => simp [flatten]
  | keyword | literal | array | object | function => simp [flatten]

/-- The leaves of several types are those of each of them, one after the other. -/
theorem flattenAll_eq (seen : List String) (i : Nat) (es : List TypeExpr) :
    flattenAll scope seen s i es =
      (es.zipIdx i).flatMap fun (e, k) => flatten scope seen (s.child k) e := by
  induction es generalizing i with
  | nil => rw [flattenAll, List.zipIdx_nil, List.flatMap_nil]
  | cons e rest ih => rw [flattenAll, List.zipIdx_cons, List.flatMap_cons, ih]

/-- The leaves of a union are those of its members. -/
theorem flatten_union {seen : List String} {es : List TypeExpr} :
    flatten scope seen s (.union es) =
      (s.nodes es).flatMap fun m => flatten scope seen m.site m.expr := by
  rw [flatten, flattenAll_eq, Site.nodes, List.flatMap_map]

/-- **Induction along the expansion of unions**, over all members of a union at once. -/
@[elab_as_elim]
theorem flatten_induction (scope : Scope) {motive : List String → Site → TypeExpr → Prop}
    (union : ∀ {seen s es}, (∀ m ∈ s.nodes es, motive seen m.site m.expr) →
      motive seen s (.union es))
    (through : ∀ {seen s name position d}, scope.alias? name = some d → d.type.isUnion = true →
      name ∉ seen → motive (name :: seen) (Site.body name) d.type →
      motive seen s (.reference name [] position))
    (leaf : ∀ {seen s e}, IsUnexpanded scope seen e → motive seen s e)
    (seen : List String) (s : Site) (e : TypeExpr) : motive seen s e := by
  refine flatten.induct scope motive
    (fun seen s i es => ∀ e k, (e, k) ∈ es.zipIdx i → motive seen (s.child k) e)
    ?nested ?through ?known ?other ?leaf ?nil ?cons seen s e
  case nested =>
    intro seen s es ih
    refine union fun m hm => ?_
    obtain ⟨⟨e, k⟩, he, rfl⟩ := List.mem_map.mp hm
    exact ih e k he
  case through =>
    intro seen s name position d hd hseen ih
    exact through hd hseen.1 hseen.2 ih
  case known =>
    intro seen s name position d hd hseen
    refine leaf ⟨rfl, fun name' position' d' heq hd' => ?_⟩
    cases heq
    obtain rfl := Option.some.inj (hd.symm.trans hd')
    exact hseen
  case other =>
    intro seen s name position hd
    refine leaf ⟨rfl, fun name' position' d' heq hd' => ?_⟩
    cases heq
    cases hd.symm.trans hd'
  case leaf =>
    intro seen s e hunion hreference
    refine leaf ⟨?_, fun name position d heq _ => absurd heq (hreference name position)⟩
    cases e with
    | union es => exact absurd rfl (hunion es)
    | keyword | literal | reference | array | object | function => rfl
  case nil =>
    intro seen s i
    exact nofun
  case cons =>
    intro seen s i e rest ih ihrest e' k he
    rcases List.mem_cons.mp he with heq | he
    · cases heq
      exact ih
    · exact ihrest e' k he

theorem isAt_of_mem_flatten (seen : List String) (s : Site) (e : TypeExpr) :
    IsAt scope ⟨s, e⟩ → ∀ m ∈ flatten scope seen s e, IsAt scope m := by
  induction seen, s, e using flatten_induction scope with
  | @union seen s es ih =>
    intro h l hl
    rw [flatten_union] at hl
    obtain ⟨m, hm, hl⟩ := List.mem_flatMap.mp hl
    exact ih m hm (isAt_of_mem_nodes h hm) l hl
  | @through seen s name position d hd hunion hseen ih =>
    intro _ m hm
    have hname : d.name = name := Scope.name_of_find? (Scope.find?_of_alias? hd)
    have hbody : IsAt scope ⟨Site.body name, d.type⟩ := hname ▸ isAt_alias hd
    rw [flatten_alias hd hunion hseen] at hm
    exact ih hbody m hm
  | leaf hleaf =>
    intro h m hm
    rw [flatten_unexpanded hleaf] at hm
    rwa [List.mem_singleton.mp hm]

theorem isAt_of_mem_alternatives (h : IsAt scope n) (hm : m ∈ alternatives scope n) :
    IsAt scope m := by
  rw [alternatives] at hm
  split at hm
  · exact isAt_of_mem_flatten [] n.site n.expr h m (List.mem_filter.mp hm).1
  · rwa [List.mem_singleton.mp hm]

theorem leaves_union {es : List TypeExpr} :
    (Node.mk s (.union es)).leaves scope = (s.nodes es).flatMap (Node.leaves scope) :=
  flatten_union

/-- A member of a union that is not wholly null or undefined has an alternative. -/
theorem exists_leaf_of_mem_writtenAlternatives (hm : m ∈ writtenAlternatives scope n) :
    ∃ l ∈ m.leaves scope, l.isNullish = false := by
  have hwhole := (List.mem_filter.mp hm).2
  simpa [isWhollyNullish] using hwhole

/-- Each element that has a good part contributes one to the good parts of all. -/
theorem length_filter_le_length_filter_flatMap {α β : Type} {p : α → Bool} {q : β → Bool}
    {f : α → List β} {xs : List α} (h : ∀ x ∈ xs, p x = true → ∃ y ∈ f x, q y = true) :
    (xs.filter p).length ≤ ((xs.flatMap f).filter q).length := by
  induction xs with
  | nil => exact Nat.le_refl _
  | cons x rest ih =>
    have ih := ih fun y hy => h y (List.mem_cons_of_mem x hy)
    rw [List.flatMap_cons, List.filter_append, List.length_append]
    cases hp : p x with
    | false =>
      rw [List.filter_cons_of_neg (by simp [hp])]
      exact Nat.le_trans ih (Nat.le_add_left _ _)
    | true =>
      obtain ⟨y, hy, hq⟩ := h x (List.mem_cons_self ..) hp
      have hpos : 0 < ((f x).filter q).length :=
        List.length_pos_of_mem (List.mem_filter.mpr ⟨hy, hq⟩)
      rw [List.filter_cons_of_pos hp, List.length_cons]
      omega

/-- **Unions have alternatives.** A union that cannot be stripped, because two of its members are
not wholly null or undefined, has at least two alternatives. -/
theorem two_le_length_alternatives (hunion : n.expr.isUnion = true)
    (h : 2 ≤ (writtenAlternatives scope n).length) : 2 ≤ (alternatives scope n).length := by
  obtain ⟨s, e⟩ := n
  cases e with
  | union es =>
    rw [alternatives, if_pos hunion, leaves_union]
    refine Nat.le_trans h (length_filter_le_length_filter_flatMap fun m hm hwhole => ?_)
    obtain ⟨l, hl, hnullish⟩ := exists_leaf_of_mem_writtenAlternatives
      (List.mem_filter.mpr ⟨hm, hwhole⟩ : m ∈ writtenAlternatives scope ⟨s, .union es⟩)
    exact ⟨l, hl, by simp [hnullish]⟩
  | keyword | literal | reference | array | object | function => cases hunion

/-! ### Stripping -/

section Equations

variable {seen : List String} {nullable : Bool} {raw : Option String}

theorem strip_union {es : List TypeExpr} :
    strip scope owner seen nullable raw ⟨s, .union es⟩ =
      match writtenAlternatives scope ⟨s, .union es⟩ with
      | [] => .error (noAlternative owner)
      | [m] => strip scope owner seen (nullable || hasNullishLeaf scope ⟨s, .union es⟩) raw m
      | _ => .ok ⟨⟨s, .union es⟩, nullable || hasNullishLeaf scope ⟨s, .union es⟩, raw⟩ := by
  rw [strip]
  split
  · split <;> simp_all
  · next h => cases h
  · next h => cases h
  · next h _ _ => exact absurd rfl (h es)

theorem strip_keyword {word : TypeKeyword} :
    strip scope owner seen nullable raw ⟨s, .keyword word⟩ =
      if word.isNullish then .error (noAlternative owner)
      else .ok ⟨⟨s, .keyword word⟩, nullable, raw⟩ := by
  rw [strip]

theorem strip_promise {argument : TypeExpr} {position : Position} :
    strip scope owner seen nullable raw ⟨s, .reference promiseName [argument] position⟩ =
      strip scope owner seen nullable raw ⟨s.child 0, argument⟩ := by
  rw [strip]
  simp

theorem strip_reference {name : String} {arguments : List TypeExpr} {position : Position}
    (h : ∀ argument, arguments = [argument] → name ≠ promiseName) :
    strip scope owner seen nullable raw ⟨s, .reference name arguments position⟩ =
      strip.stripAlias scope owner seen nullable raw ⟨s, .reference name arguments position⟩
        name := by
  rw [strip]
  simp only
  split
  · next argument _ _ => rw [if_neg (h argument rfl)]
  · rfl

variable {name : String} {d : Alias}

theorem stripAlias_none (hd : scope.alias? name = none) :
    strip.stripAlias scope owner seen nullable raw n name = .ok ⟨n, nullable, raw⟩ := by
  rw [strip.stripAlias]
  split
  · rfl
  · next d' hd' =>
    rw [hd] at hd'
    cases hd'

theorem stripAlias_some (hd : scope.alias? name = some d) :
    strip.stripAlias scope owner seen nullable raw n name =
      if namesShape scope d then
        .ok ⟨n, nullable || (d.type.isUnion && hasNullishLeaf scope d.node), raw⟩
      else if name ∈ seen then .error ⟨.aliasOfItself name, name, some d.position⟩
      else strip scope owner (name :: seen) nullable (some name) d.node := by
  rw [strip.stripAlias]
  split
  · next hnone =>
    rw [hd] at hnone
    cases hnone
  · next d' hd' =>
    obtain rfl := Option.some.inj (hd.symm.trans hd')
    rfl

theorem strip_empty {es : List TypeExpr} (h : writtenAlternatives scope ⟨s, .union es⟩ = []) :
    strip scope owner seen nullable raw ⟨s, .union es⟩ = .error (noAlternative owner) := by
  rw [strip_union, h]

theorem strip_only {es : List TypeExpr} (h : writtenAlternatives scope ⟨s, .union es⟩ = [m]) :
    strip scope owner seen nullable raw ⟨s, .union es⟩ =
      strip scope owner seen (nullable || hasNullishLeaf scope ⟨s, .union es⟩) raw m := by
  rw [strip_union, h]

theorem strip_several {es : List TypeExpr}
    (h : 2 ≤ (writtenAlternatives scope ⟨s, .union es⟩).length) :
    strip scope owner seen nullable raw ⟨s, .union es⟩ =
      .ok ⟨⟨s, .union es⟩, nullable || hasNullishLeaf scope ⟨s, .union es⟩, raw⟩ := by
  rw [strip_union]
  split
  · next hnil =>
    rw [hnil] at h
    cases h
  · next m hone =>
    rw [hone] at h
    exact absurd h (Nat.not_succ_le_self 1)
  · rfl

section Reference

variable {name : String} {arguments : List TypeExpr} {position : Position} {d : Alias}
  (hpromise : ∀ e, arguments = [e] → name ≠ promiseName)

include hpromise

theorem strip_undeclared (hd : scope.alias? name = none) :
    strip scope owner seen nullable raw ⟨s, .reference name arguments position⟩ =
      .ok ⟨⟨s, .reference name arguments position⟩, nullable, raw⟩ := by
  rw [strip_reference hpromise, stripAlias_none hd]

theorem strip_shape (hd : scope.alias? name = some d) (hshape : namesShape scope d = true) :
    strip scope owner seen nullable raw ⟨s, .reference name arguments position⟩ =
      .ok ⟨⟨s, .reference name arguments position⟩,
        nullable || (d.type.isUnion && hasNullishLeaf scope d.node), raw⟩ := by
  rw [strip_reference hpromise, stripAlias_some hd, if_pos hshape]

theorem strip_again (hd : scope.alias? name = some d) (hshape : namesShape scope d = false)
    (hseen : name ∈ seen) :
    strip scope owner seen nullable raw ⟨s, .reference name arguments position⟩ =
      .error ⟨.aliasOfItself name, name, some d.position⟩ := by
  rw [strip_reference hpromise, stripAlias_some hd, hshape, if_neg Bool.false_ne_true, if_pos hseen]

theorem strip_followed (hd : scope.alias? name = some d) (hshape : namesShape scope d = false)
    (hseen : name ∉ seen) :
    strip scope owner seen nullable raw ⟨s, .reference name arguments position⟩ =
      strip scope owner (name :: seen) nullable (some name) d.node := by
  rw [strip_reference hpromise, stripAlias_some hd, hshape, if_neg Bool.false_ne_true, if_neg hseen]

end Reference

end Equations

/-- **Induction along stripping**, with one case for each thing that stripping does with a type. -/
@[elab_as_elim]
theorem strip_induction (scope : Scope)
    {motive : List String → Bool → Option String → Node → Prop}
    (empty : ∀ {seen nullable raw s es}, writtenAlternatives scope ⟨s, .union es⟩ = [] →
      motive seen nullable raw ⟨s, .union es⟩)
    (only : ∀ {seen nullable raw s es m}, writtenAlternatives scope ⟨s, .union es⟩ = [m] →
      motive seen (nullable || hasNullishLeaf scope ⟨s, .union es⟩) raw m →
      motive seen nullable raw ⟨s, .union es⟩)
    (several : ∀ {seen nullable raw s es}, 2 ≤ (writtenAlternatives scope ⟨s, .union es⟩).length →
      motive seen nullable raw ⟨s, .union es⟩)
    (keyword : ∀ {seen nullable raw s word}, motive seen nullable raw ⟨s, .keyword word⟩)
    (promise : ∀ {seen nullable raw s e position}, motive seen nullable raw ⟨s.child 0, e⟩ →
      motive seen nullable raw ⟨s, .reference promiseName [e] position⟩)
    (undeclared : ∀ {seen nullable raw s name arguments position},
      (∀ e, arguments = [e] → name ≠ promiseName) → scope.alias? name = none →
      motive seen nullable raw ⟨s, .reference name arguments position⟩)
    (shape : ∀ {seen nullable raw s name arguments position d},
      (∀ e, arguments = [e] → name ≠ promiseName) → scope.alias? name = some d →
      namesShape scope d = true → motive seen nullable raw ⟨s, .reference name arguments position⟩)
    (again : ∀ {seen nullable raw s name arguments position d},
      (∀ e, arguments = [e] → name ≠ promiseName) → scope.alias? name = some d →
      namesShape scope d = false → name ∈ seen →
      motive seen nullable raw ⟨s, .reference name arguments position⟩)
    (followed : ∀ {seen nullable raw s name arguments position d},
      (∀ e, arguments = [e] → name ≠ promiseName) → scope.alias? name = some d →
      namesShape scope d = false → name ∉ seen →
      motive (name :: seen) nullable (some name) d.node →
      motive seen nullable raw ⟨s, .reference name arguments position⟩)
    (literal : ∀ {seen nullable raw s value}, motive seen nullable raw ⟨s, .literal value⟩)
    (array : ∀ {seen nullable raw s e}, motive seen nullable raw ⟨s, .array e⟩)
    (object : ∀ {seen nullable raw s ps position},
      motive seen nullable raw ⟨s, .object ps position⟩)
    (function : ∀ {seen nullable raw s ps e}, motive seen nullable raw ⟨s, .function ps e⟩)
    (seen : List String) (nullable : Bool) (raw : Option String) (n : Node) :
    motive seen nullable raw n := by
  refine strip.induct scope
    (fun seen nullable raw n name => ∀ s arguments position,
      n = ⟨s, .reference name arguments position⟩ →
      (∀ e, arguments = [e] → name ≠ promiseName) → motive seen nullable raw n)
    motive ?undeclared ?shape ?again ?followed ?empty ?only ?several ?nullish ?keyword ?promise
    ?generic ?reference ?bare seen nullable raw n
  case undeclared =>
    rintro seen nullable raw n name hd s arguments position rfl hpromise
    exact undeclared hpromise hd
  case shape =>
    rintro seen nullable raw n name d hd hshape s arguments position rfl hpromise
    exact shape hpromise hd hshape
  case again =>
    rintro seen nullable raw n name d hd hshape hseen s arguments position rfl hpromise
    exact again hpromise hd (Bool.eq_false_iff.mpr hshape) hseen
  case followed =>
    rintro seen nullable raw n name d hd hshape hseen ih s arguments position rfl hpromise
    exact followed hpromise hd (Bool.eq_false_iff.mpr hshape) hseen ih
  case empty =>
    rintro seen nullable raw ⟨s, e⟩ es hn hempty
    cases hn
    exact empty hempty
  case only =>
    rintro seen nullable raw ⟨s, e⟩ es hn nullable' m hm ih
    cases hn
    exact only hm ih
  case several =>
    rintro seen nullable raw ⟨s, e⟩ es hn hempty hsingle
    cases hn
    refine several ?_
    match hwritten : writtenAlternatives scope ⟨s, .union es⟩ with
    | [] => exact absurd hwritten hempty
    | [m] => exact absurd hwritten (hsingle m)
    | _ :: _ :: _ => exact Nat.le_add_left _ _
  case nullish | keyword =>
    rintro seen nullable raw ⟨s, e⟩ word hn -
    cases hn
    exact keyword
  case promise =>
    rintro seen nullable raw ⟨s, e⟩ position argument hn - ih
    cases hn
    exact promise ih
  case generic =>
    rintro seen nullable raw ⟨s, e⟩ name position argument hn hpromise - ih
    cases hn
    exact ih s _ _ rfl fun _ _ => hpromise
  case reference =>
    rintro seen nullable raw ⟨s, e⟩ name arguments position hn hn' hseveral ih
    cases hn
    refine ih s _ _ rfl ?_
    rintro argument rfl
    exact (hseveral argument rfl rfl HEq.rfl).elim
  case bare =>
    rintro seen nullable raw ⟨s, e⟩ hunion hkeyword hreference
    cases e with
    | keyword word => exact absurd rfl (hkeyword word)
    | union es => exact absurd rfl (hunion es)
    | reference name arguments position => exact absurd rfl (hreference name arguments position)
    | literal => exact literal
    | array => exact array
    | object => exact object
    | function => exact function

/-- A type that cannot be stripped: if it is a union, two of its members are not wholly null or
undefined. -/
def IsBare (scope : Scope) (n : Node) : Prop :=
  n.expr.isUnion = true → 2 ≤ (writtenAlternatives scope n).length

/-- Two outcomes of stripping `n`, for two owners: if the first succeeds, so does the second, with
the same, which is bare and stands where its site says. -/
def StripAlike (scope : Scope) (n : Node) (a b : Except DeclarationError Stripped) : Prop :=
  ∀ t, a = .ok t → b = .ok t ∧ (IsAt scope n → IsAt scope t.node) ∧ IsBare scope t.node

theorem StripAlike.error {x : DeclarationError} {b : Except DeclarationError Stripped} :
    StripAlike scope n (.error x) b :=
  fun _ h => by cases h

theorem StripAlike.done {nullable : Bool} {raw : Option String} (h : IsBare scope n) :
    StripAlike scope n (.ok ⟨n, nullable, raw⟩) (.ok ⟨n, nullable, raw⟩) := by
  intro t' ht
  cases ht
  exact ⟨rfl, id, h⟩

theorem StripAlike.through {a b : Except DeclarationError Stripped} (h : StripAlike scope m a b)
    (hplace : IsAt scope n → IsAt scope m) : StripAlike scope n a b := by
  intro t ht
  obtain ⟨hb, hat, hbare⟩ := h t ht
  exact ⟨hb, fun hn => hat (hplace hn), hbare⟩

theorem isBare_of_not_isUnion (h : n.expr.isUnion = false) : IsBare scope n := by
  intro hunion
  rw [h] at hunion
  cases hunion

theorem stripAlike (scope : Scope) (owner owner' : String) (seen : List String) (nullable : Bool)
    (raw : Option String) (n : Node) : StripAlike scope n
      (strip scope owner seen nullable raw n) (strip scope owner' seen nullable raw n) := by
  induction seen, nullable, raw, n using strip_induction scope with
  | empty hempty =>
    rw [strip_empty hempty]
    exact .error
  | @only seen nullable raw s es m honly ih =>
    have hm : m ∈ writtenAlternatives scope ⟨s, .union es⟩ := honly ▸ List.mem_singleton_self m
    rw [strip_only honly, strip_only honly]
    exact ih.through fun h => isAt_of_mem_nodes h (List.mem_filter.mp hm).1
  | several hseveral =>
    rw [strip_several hseveral, strip_several hseveral]
    exact .done fun _ => hseveral
  | keyword =>
    rw [strip_keyword, strip_keyword]
    split
    · exact .error
    · exact .done (isBare_of_not_isUnion rfl)
  | promise ih =>
    rw [strip_promise, strip_promise]
    exact ih.through fun h => exprAt?_child h
  | undeclared hpromise hd =>
    rw [strip_undeclared hpromise hd, strip_undeclared hpromise hd]
    exact .done (isBare_of_not_isUnion rfl)
  | shape hpromise hd hshape =>
    rw [strip_shape hpromise hd hshape, strip_shape hpromise hd hshape]
    exact .done (isBare_of_not_isUnion rfl)
  | again hpromise hd hshape hseen =>
    rw [strip_again hpromise hd hshape hseen]
    exact .error
  | followed hpromise hd hshape hseen ih =>
    rw [strip_followed hpromise hd hshape hseen, strip_followed hpromise hd hshape hseen]
    exact ih.through fun _ => isAt_alias hd
  | literal | array | object | function =>
    rw [strip, strip]
    exact .done (isBare_of_not_isUnion rfl)

/-- Without its wrappings, `n` is `t`. -/
def Strips (scope : Scope) (n : Node) (t : Stripped) : Prop := strip scope "" [] false none n = .ok t

/-- For whom a type is stripped only matters to messages. -/
theorem strips_of_strip {t : Stripped} (h : strip scope owner [] false none n = .ok t) :
    Strips scope n t :=
  (stripAlike scope owner "" [] false none n t h).1

namespace Strips

variable {t t' : Stripped}

theorem unique (h : Strips scope n t) (h' : Strips scope n t') : t = t' :=
  Except.ok.inj (h.symm.trans h')

theorem isAt (h : Strips scope n t) (hn : IsAt scope n) : IsAt scope t.node :=
  (stripAlike scope "" "" [] false none n t h).2.1 hn

theorem isBare (h : Strips scope n t) : IsBare scope t.node :=
  (stripAlike scope "" "" [] false none n t h).2.2

end Strips

/-! ### Inherited members -/

/-- The signature is that of a member of an object type of the file. -/
def IsWritten (scope : Scope) (sig : Signature) : Prop :=
  ∃ s ps position owner, IsAt scope ⟨s, .object ps position⟩ ∧ sig ∈ s.signatures owner ps

theorem IsWritten.isAt {sig : Signature} (h : IsWritten scope sig) :
    IsAt scope ⟨sig.site, sig.property.type⟩ := by
  obtain ⟨s, ps, position, owner, hat, hsig⟩ := h
  exact isAt_of_mem_signatures hat hsig

theorem isWritten_of_mem_writtenMembers {name : String} {ps : List (Property TypeExpr)}
    {position : Position} (h : scope.exprAt? s = some (.object ps position)) {sig : Signature}
    (hsig : .member sig ∈ writtenMembers name s ps) : IsWritten scope sig := by
  obtain ⟨sig', hmem, heq⟩ := List.mem_map.mp hsig
  obtain rfl := LineageStep.member.inj heq
  exact ⟨s, ps, position, name, h, hmem⟩

theorem isWritten_of_mem_written {d : Interface} (h : scope.find? d.name = some (.interface d))
    {sig : Signature} (hsig : .member sig ∈ d.written) : IsWritten scope sig :=
  isWritten_of_mem_writtenMembers (isAt_body h rfl) hsig

theorem isWritten_of_mem_baseLineage (chain : List String) (sub : Interface) (base : String) :
    ∀ sig, .member sig ∈ baseLineage scope chain sub base → IsWritten scope sig := by
  fun_induction baseLineage scope chain sub base with
  | case1 chain sub base d h hc =>
    intro sig hsig
    cases List.mem_singleton.mp hsig
  | case2 chain sub base d h hc ih =>
    intro sig hsig
    rcases List.mem_append.mp hsig with hbase | hwritten
    · obtain ⟨b, -, hb⟩ := List.mem_flatMap.mp hbase
      exact ih b sig hb
    · have hname : d.name = base := Scope.name_of_find? h
      exact isWritten_of_mem_written (hname ▸ h) hwritten
  | case3 chain sub base d h ps position htype =>
    intro sig hsig
    have hname : d.name = base := Scope.name_of_find? h
    have htype : (Declaration.typeAlias d).body? = some (.object ps position) :=
      congrArg some htype
    have hbody : scope.exprAt? (Site.body d.name) = some (.object ps position) :=
      isAt_body (hname ▸ h) htype
    exact isWritten_of_mem_writtenMembers hbody hsig
  | case4 | case5 =>
    intro sig hsig
    cases List.mem_singleton.mp hsig

/-- The members that an interface inherits are written in the file. -/
theorem isWritten_of_mem_lineage {d : Interface} (h : scope.find? d.name = some (.interface d))
    {sig : Signature} (hsig : .member sig ∈ lineage scope d) : IsWritten scope sig := by
  rcases List.mem_append.mp hsig with hbase | hwritten
  · obtain ⟨b, -, hb⟩ := List.mem_flatMap.mp hbase
    exact isWritten_of_mem_baseLineage _ _ _ sig hb
  · exact isWritten_of_mem_written h hwritten

/-- The members that an interface inherits stand where their sites say. -/
theorem isAt_of_mem_lineage {d : Interface} (h : scope.find? d.name = some (.interface d))
    {sig : Signature} (hsig : .member sig ∈ lineage scope d) :
    IsAt scope ⟨sig.site, sig.property.type⟩ :=
  (isWritten_of_mem_lineage h hsig).isAt

end DeclaredSchema
