import DeclaredSchema.Proofs.Declaration.Unwrapping
import DeclaredSchema.Proofs.Extraction.Nullability

/-!
# Aliases that only add null

`type M = R | null` means the type that `R` means, besides null. Where the alias is transparent, a
member of type `M` is one of type `R` that may be null, whatever has been passed on the way to `R`.
But whether an alias is transparent is decided with all unions within it expanded, so if `R` is an
alias of a union, `M` has the alternatives of `R` and becomes a type of its own.

## Main definitions

* `IsNullableReference` — the type is a reference besides null and undefined
* `Shape.name?` — the name of a declared shape
* `IsMemberOf` — the members of a table with their signatures
* `AddsNull` — what an alias means that adds null to a reference

## Main results

* `strip_unaffected` — what a type is besides its wrappings does not depend on the way to it
* `addsNull_of_extract` — aliases that only add null
* `copies_union` — an alias that adds null to an alias of a union
-/

namespace DeclaredSchema

/-- The members of the union are a reference to `name`, without arguments, and null or undefined. -/
def IsNullableReference (name : String) (e : TypeExpr) : Prop :=
  ∃ before after position, e = .union (before ++ .reference name [] position :: after) ∧
    before ++ after ≠ [] ∧ ∀ e' ∈ before ++ after, e'.isNullish = true

/-- The name of the declaration that a shape belongs to. -/
def Shape.name? : Shape → Option String
  | .record name _ _ | .enumeration name _ _ => some name
  | .inlineRecord _ _ _ => none
  | .union name _ _ => name

variable {scope : Scope} {n m : Node} {s s' : Site} {e : TypeExpr} {name : String}
  {before after : List TypeExpr} {position position' : Position} {d : Alias}

/-! ### Unions of one type with null -/

/-- Null and undefined are their own only leaves. -/
theorem leaves_of_isNullish (h : n.isNullish = true) : n.leaves scope = [n] := by
  obtain ⟨s, e⟩ := n
  cases e with
  | keyword word => exact flatten_unexpanded ⟨rfl, nofun⟩
  | literal | reference | array | union | object | function => cases h

section Nullish

variable (h : ∀ e' ∈ before ++ after, e'.isNullish = true)

include h

theorem isNullish_of_mem_nodes :
    (∀ m ∈ s.nodes before, m.isNullish = true) ∧
      ∀ m ∈ (after.zipIdx (before.length + 1)).map fun (e, i) => Node.mk (s.child i) e,
        m.isNullish = true := by
  refine ⟨fun m hm => h _ (List.mem_append_left _ (Site.expr_mem_of_mem_nodes hm)), fun m hm => ?_⟩
  obtain ⟨⟨e', i⟩, he', rfl⟩ := List.mem_map.mp hm
  exact h _ (List.mem_append_right _ (List.fst_mem_of_mem_zipIdx he'))

/-- The written alternatives of a type with null are those of the type. -/
theorem writtenAlternatives_of_nullable :
    writtenAlternatives scope ⟨s, .union (before ++ e :: after)⟩ =
      [⟨s.child before.length, e⟩].filter fun m => !isWhollyNullish scope m := by
  have hwhole : ∀ m : Node, m.isNullish = true → (!isWhollyNullish scope m) = false := by
    intro m hm
    rw [isWhollyNullish, leaves_of_isNullish hm, List.all_cons, hm]
    rfl
  have hmembers : (Node.mk s (.union (before ++ e :: after))).members =
      s.nodes (before ++ e :: after) := rfl
  obtain ⟨hbefore, hafter⟩ := isNullish_of_mem_nodes (s := s) h
  rw [writtenAlternatives, hmembers, nodes_append_cons]
  exact filter_append_cons (fun m hm => hwhole m (hbefore m hm)) fun m hm => hwhole m (hafter m hm)

/-- The alternatives of a type with null are those that its leaves leave besides null. -/
theorem alternatives_of_nullable :
    alternatives scope ⟨s, .union (before ++ e :: after)⟩ =
      ((Node.mk (s.child before.length) e).leaves scope).filter fun m => !m.isNullish := by
  have hdropped : ∀ ns : List Node, (∀ m ∈ ns, m.isNullish = true) →
      (ns.flatMap (Node.leaves scope)).filter (fun m => !m.isNullish) = [] := by
    intro ns hns
    refine List.filter_eq_nil_iff.mpr fun l hl => ?_
    obtain ⟨m, hm, hl⟩ := List.mem_flatMap.mp hl
    rw [leaves_of_isNullish (hns m hm), List.mem_singleton] at hl
    rw [hl, hns m hm]
    exact Bool.false_ne_true
  have hunion : (Node.mk s (.union (before ++ e :: after))).expr.isUnion = true := rfl
  obtain ⟨hbefore, hafter⟩ := isNullish_of_mem_nodes (s := s) h
  rw [alternatives, if_pos hunion, leaves_union, nodes_append_cons, List.flatMap_append,
    List.filter_append, hdropped _ hbefore, List.nil_append, List.flatMap_cons, List.filter_append,
    hdropped _ hafter, List.append_nil]

end Nullish

/-- A reference that is expanded in a union is one to an alias of a union. -/
theorem namesShape_of_nullable (h : IsNullableReference name d.type)
    (hshape : namesShape scope d = true) :
    ∃ base, scope.alias? name = some base ∧ base.type.isUnion = true := by
  obtain ⟨before, after, position, htype, -, hnullish⟩ := h
  have hleaf : (∀ s, flatten scope [] s (.reference name [] position) =
      [⟨s, .reference name [] position⟩]) → namesShape scope d = false := by
    intro hleaf
    have halternatives : alternatives scope d.node =
        [⟨d.node.site.child before.length, .reference name [] position⟩] := by
      rw [Alias.node, htype, alternatives_of_nullable hnullish, Node.leaves, hleaf]
      rfl
    rw [namesShape, halternatives]
    rfl
  cases hbase : scope.alias? name with
  | none => exact Bool.noConfusion (hshape.symm.trans (hleaf fun _ => flatten_other hbase))
  | some base =>
    refine ⟨base, rfl, ?_⟩
    by_contra hunion
    have hknown := hleaf fun _ => flatten_known hbase fun h => hunion h.1
    exact Bool.noConfusion (hshape.symm.trans hknown)

theorem within_of_nullable (h : IsNullableReference name e) : Within scope e := by
  obtain ⟨before, after, position, rfl, hne, hnullish⟩ := h
  obtain ⟨e', he'⟩ := List.exists_mem_of_ne_nil _ hne
  have hmem : e' ∈ before ++ .reference name [] position :: after := by
    rcases List.mem_append.mp he' with he' | he'
    · exact List.mem_append_left _ he'
    · exact List.mem_append_right _ (List.mem_cons_of_mem _ he')
  have hword := hnullish e' he'
  cases e' with
  | keyword word => exact ⟨1, .member hmem (.absent hword)⟩
  | literal | reference | array | union | object | function => cases hword

/-- A reference to an alias that only adds null is nullable. -/
theorem alone_of_nullable (hd : scope.alias? name = some d) {base : String}
    (h : IsNullableReference base d.type) : Alone scope ⟨s, .reference name [] position⟩ := by
  have hwithin : Within scope d.type := within_of_nullable h
  obtain ⟨before, after, position', htype, -, -⟩ := h
  refine (alone_reference ne_promiseName_of_nil).mpr ⟨d, hd, ?_⟩
  cases hshape : namesShape scope d with
  | true => exact .inr ⟨rfl, by rw [htype]; rfl, hwithin⟩
  | false =>
    refine .inl ⟨rfl, ?_⟩
    rw [Alias.node, htype]
    exact .union (htype ▸ hwithin)

/-! ### What was passed before -/

/-- Two outcomes of stripping that have the same inside, if they have one. -/
def SameInside (a b : Except DeclarationError Stripped) : Prop :=
  ∀ t t', a = .ok t → b = .ok t' → t.node = t'.node ∧ t.raw = t'.raw

theorem SameInside.done {nullable nullable' : Bool} {raw : Option String} :
    SameInside (.ok ⟨n, nullable, raw⟩) (.ok ⟨n, nullable', raw⟩) := by
  intro t t' ht ht'
  cases ht
  cases ht'
  exact ⟨rfl, rfl⟩

theorem SameInside.left {x : DeclarationError} {b : Except DeclarationError Stripped} :
    SameInside (.error x) b :=
  nofun

theorem SameInside.right {a : Except DeclarationError Stripped} {x : DeclarationError} :
    SameInside a (.error x) :=
  nofun

/-- **What a type is besides its wrappings** does not depend on the aliases and the absent values
that were passed before. -/
theorem strip_unaffected (scope : Scope) (owner : String) (seen : List String) (nullable : Bool)
    (raw : Option String) (n : Node) : ∀ seen' nullable', SameInside
      (strip scope owner seen nullable raw n) (strip scope owner seen' nullable' raw n) := by
  induction seen, nullable, raw, n using strip_induction scope with
  | empty hempty =>
    intro seen' nullable'
    rw [strip_empty hempty]
    exact .left
  | only honly ih =>
    intro seen' nullable'
    rw [strip_only honly, strip_only honly]
    exact ih _ _
  | several hseveral =>
    intro seen' nullable'
    rw [strip_several hseveral, strip_several hseveral]
    exact .done
  | keyword =>
    intro seen' nullable'
    rw [strip_keyword, strip_keyword]
    split
    · exact .left
    · exact .done
  | promise ih =>
    intro seen' nullable'
    rw [strip_promise, strip_promise]
    exact ih _ _
  | undeclared hpromise hd =>
    intro seen' nullable'
    rw [strip_undeclared hpromise hd, strip_undeclared hpromise hd]
    exact .done
  | shape hpromise hd hshape =>
    intro seen' nullable'
    rw [strip_shape hpromise hd hshape, strip_shape hpromise hd hshape]
    exact .done
  | again hpromise hd hshape hseen =>
    intro seen' nullable'
    rw [strip_again hpromise hd hshape hseen]
    exact .left
  | @followed _ _ _ _ name _ _ _ hpromise hd hshape hseen ih =>
    intro seen' nullable'
    rw [strip_followed hpromise hd hshape hseen]
    by_cases hseen' : name ∈ seen'
    · rw [strip_again hpromise hd hshape hseen']
      exact .right
    · rw [strip_followed hpromise hd hshape hseen']
      exact ih _ _
  | literal | array | object | function =>
    intro seen' nullable'
    rw [strip, strip]
    exact .done

namespace Extraction

variable {ctx : ExtractionContext} {r : Registry} {keys : List NodeKey} {x : Descriptor}
  {raw raw' : Option String} {type type' : TypeRef} {t t' : Stripped}

/-! ### References -/

/-- A name stands for one thing, wherever it stands and however it was reached. -/
theorem Denotes.unique_reference (h : Denotes scope keys ⟨s, .reference name [] position⟩ raw type)
    (h' : Denotes scope keys ⟨s', .reference name [] position'⟩ raw' type') : type = type' := by
  cases h with
  | declared hd h =>
    cases h' with
    | declared hd' h' => rw [Option.some.inj (h.symm.trans h')]
    | date hd' | openScalar hd' => cases hd.symm.trans hd'
  | date hd =>
    cases h' with
    | declared hd' h' => cases hd.symm.trans hd'
    | date => rfl
    | openScalar hd' hdate => exact absurd rfl hdate
  | openScalar hd hdate =>
    cases h' with
    | declared hd' h' => cases hd.symm.trans hd'
    | date => exact absurd rfl hdate
    | openScalar => rfl

/-- Two references to one name, stripped on different ways, stand for the same. -/
theorem denotes_of_strip_reference {owner : String} {seen seen' : List String}
    {nullable nullable' : Bool}
    (ht : strip scope owner seen nullable raw ⟨s, .reference name [] position⟩ = .ok t)
    (ht' : strip scope owner seen' nullable' raw' ⟨s', .reference name [] position'⟩ = .ok t')
    (h : Denotes scope keys t.node t.raw type) (h' : Denotes scope keys t'.node t'.raw type') :
    type = type' := by
  rw [strip_reference ne_promiseName_of_nil] at ht ht'
  cases hd : scope.alias? name with
  | none =>
    rw [stripAlias_none hd] at ht ht'
    cases ht
    cases ht'
    exact h.unique_reference h'
  | some d =>
    rw [stripAlias_some hd] at ht ht'
    cases hshape : namesShape scope d with
    | true =>
      rw [if_pos hshape] at ht ht'
      cases ht
      cases ht'
      exact h.unique_reference h'
    | false =>
      rw [hshape, if_neg Bool.false_ne_true] at ht ht'
      split at ht
      · cases ht
      split at ht'
      · cases ht'
      obtain ⟨hnode, hraw⟩ := strip_unaffected _ _ _ _ _ _ _ _ t t' ht ht'
      rw [hnode, hraw] at h
      exact h.unique h'

/-- An alias that adds null and names no shape stands for what the reference within it does. -/
theorem IsAlternative.of_nullable {base : String} (hd : scope.alias? name = some d)
    (hbody : IsNullableReference base d.type) (hshape : namesShape scope d = false)
    (h : IsAlternative scope keys ⟨s, .reference name [] position⟩ type)
    (h' : IsAlternative scope keys ⟨s', .reference base [] position'⟩ type') : type = type' := by
  obtain ⟨t, ht, hdenotes⟩ := h
  obtain ⟨t', ht', hdenotes'⟩ := h'
  obtain ⟨before, after, position'', htype, -, hnullish⟩ := hbody
  rw [Strips, strip_followed ne_promiseName_of_nil hd hshape List.not_mem_nil, Alias.node, htype,
    strip_union, writtenAlternatives_of_nullable hnullish] at ht
  cases hwhole : isWhollyNullish scope
      ⟨(Site.body d.name).child before.length, .reference base [] position''⟩ with
  | true =>
    rw [List.filter_cons_of_neg (by rw [hwhole]; exact Bool.false_ne_true), List.filter_nil] at ht
    cases ht
  | false =>
    rw [List.filter_cons_of_pos (by rw [hwhole]; rfl), List.filter_nil] at ht
    exact denotes_of_strip_reference ht ht' hdenotes hdenotes'

/-! ### Members and their signatures -/

/-- `m` is a member of a record of the table, and is what `s` stands for, a signature of the
record. -/
def IsMemberOf (ctx : ExtractionContext) (r : Registry) (s : Signature) (m : Member) : Prop :=
  ∃ (slot : Nat) (key : NodeKey) (x : Descriptor) (steps : List LineageStep),
    r.keys[slot]? = some key ∧ r.graph[slot]? = some x ∧ m ∈ x.shape.members ∧
    RecordOf ctx key steps ∧ .member s ∈ steps ∧ IsMember ctx.scope r.keys (recordsOf r) s m

theorem IsMemberOf.isAlternative {s : Signature} {m : Member} (h : IsMemberOf ctx r s m) :
    IsAlternative ctx.scope r.keys (typeOf s) m.type := by
  obtain ⟨-, -, -, -, -, -, -, -, -, hmember⟩ := h
  obtain ⟨t, hstrips, hdenotes, -⟩ := hmember.type
  exact ⟨t, hstrips, hdenotes⟩

theorem IsMemberOf.nullableType_iff {s : Signature} {m : Member} (h : IsMemberOf ctx r s m) :
    m.nullableType = true ↔ Alone ctx.scope (typeOf s) := by
  obtain ⟨-, -, -, -, -, -, -, -, -, hmember⟩ := h
  obtain ⟨t, hstrips, -, hnullable⟩ := hmember.type
  rw [hnullable]
  exact nullable_iff_alone hstrips

/-- Each descriptor completes the slot of its key. -/
theorem IsComplete.exists_key (h : IsComplete ctx r) {slot : Nat} (hx : r.graph[slot]? = some x) :
    ∃ key, r.keys[slot]? = some key ∧
      Fills ctx r.keys (recordsOf r) (Resolved ctx) key x.shape := by
  obtain ⟨hlt, -⟩ := List.getElem?_eq_some_iff.mp hx
  rw [← h.length] at hlt
  obtain ⟨shape, hshape, hfills⟩ := h.filled (List.getElem?_eq_getElem hlt) id
  obtain rfl := Option.some.inj (hshape.symm.trans hx)
  exact ⟨_, List.getElem?_eq_getElem hlt, hfills⟩

/-- Every member of a table has a signature. -/
theorem IsComplete.exists_isMemberOf (h : IsComplete ctx r) {m : Member} (hx : x ∈ r.graph)
    (hm : m ∈ x.shape.members) : ∃ s, IsMemberOf ctx r s m := by
  obtain ⟨slot, hslot⟩ := List.mem_iff_getElem?.mp hx
  obtain ⟨key, hkey, hfills⟩ := h.exists_key hslot
  obtain ⟨steps, s, hrecord, hs, hmember⟩ := hfills.exists_recordOf hm
  exact ⟨s, slot, key, x, steps, hkey, hslot, hm, hrecord, hs, hmember⟩

/-- Only the descriptors of declarations have names, and these are theirs. -/
theorem Fills.name?_eq_some_iff {asked : Node → Prop} {records : Nat → Prop} {key : NodeKey}
    {shape : Shape} (h : Fills ctx keys records asked key shape) :
    shape.name? = some name ↔ key = .declared name := by
  cases h with
  | interface | enumeration | objectAlias | unionAlias | textAlias => simp [Shape.name?]
  | object | union => simp [Shape.name?]

/-- An alias has a descriptor of its own exactly if it names a shape. -/
theorem IsComplete.exists_name?_iff (h : IsComplete ctx r) (hscope : IsUnambiguous ctx.scope)
    (hgrows : Grows ctx (Resolved ctx) Registry.empty r) (hd : .typeAlias d ∈ ctx.scope) :
    (∃ x ∈ r.graph, x.shape.name? = some d.name) ↔ namesShape ctx.scope d = true := by
  constructor
  · rintro ⟨x, hx, hname⟩
    obtain ⟨slot, hslot⟩ := List.mem_iff_getElem?.mp hx
    obtain ⟨key, hkey, hfills⟩ := h.exists_key hslot
    obtain rfl := hfills.name?_eq_some_iff.mp hname
    rcases hgrows.fresh _ (List.mem_of_getElem? hkey) with hold | ⟨d', hd', hname', hslot'⟩
    · cases hold
    · cases hscope.eq hd' hd hname'
      exact hslot'
  · intro hshape
    obtain ⟨slot, hslot⟩ := List.mem_iff_getElem?.mp (h.declared hd hshape)
    obtain ⟨shape, hgraph, hfills⟩ := h.filled hslot id
    exact ⟨_, List.mem_of_getElem? hgraph, hfills.name?_eq_some_iff.mpr rfl⟩

/-! ### Aliases that only add null -/

/-- What an alias means that adds null to a reference to `name`. -/
structure AddsNull (ctx : ExtractionContext) (r : Registry) (d : Alias) (name : String) : Prop where
  /-- Every member of the table is what a signature stands for. -/
  signed : ∀ x ∈ r.graph, ∀ m ∈ x.shape.members, ∃ s, IsMemberOf ctx r s m
  /-- Members of the type are nullable. -/
  nullable : ∀ {s m position}, IsMemberOf ctx r s m →
    (typeOf s).expr = .reference d.name [] position → m.nullableType = true
  /-- An alias of a reference to anything but an alias of a union names no shape. -/
  transparent : (∀ base, ctx.scope.alias? name = some base → base.type.isUnion = false) →
    namesShape ctx.scope d = false
  /-- An alias that names no shape has no descriptor. -/
  unnamed : namesShape ctx.scope d = false → ∀ x ∈ r.graph, x.shape.name? ≠ some d.name
  /-- Members of the type then have the type of members that are written with the reference. -/
  same : namesShape ctx.scope d = false → ∀ {s m position s' m' position'},
    IsMemberOf ctx r s m → IsMemberOf ctx r s' m' →
    (typeOf s).expr = .reference d.name [] position →
    (typeOf s').expr = .reference name [] position' → m.type = m'.type
  /-- An alias that names a shape has a descriptor, which is the type of its members. -/
  own : namesShape ctx.scope d = true → ∃ (slot : Nat) (x : Descriptor),
    r.graph[slot]? = some x ∧ x.shape.name? = some d.name ∧ ∀ {s m position},
      IsMemberOf ctx r s m → (typeOf s).expr = .reference d.name [] position → m.type = .node slot

/-- **Aliases that only add null** are transparent, and make every member of their type nullable,
unless they refer to an alias of a union. -/
theorem addsNull_of_extract {unionsAsEnums : Bool} {file : SourceUnit} {g : Graph}
    (h : extract unionsAsEnums file = .ok g) {d : Alias} {name : String}
    (hd : .typeAlias d ∈ file.declarations) (hbody : IsNullableReference name d.type) :
    ∃ r, Yields (run unionsAsEnums file) Registry.empty ⟨⟩ r ∧ r.graph = g ∧
      AddsNull ⟨file.declarations, unionsAsEnums⟩ r d name := by
  obtain ⟨r, hrun, rfl⟩ := yields_of_extract h
  obtain ⟨hscope, hcomplete, hgrows⟩ := isComplete_of_run hrun
  have hfind : Scope.find? file.declarations d.name = some (.typeAlias d) := hscope _ hd
  have halias : Scope.alias? file.declarations d.name = some d := by
    rw [Scope.alias?, hfind]
  have hnode : ∀ {n : Node} {e : TypeExpr}, n.expr = e → n = ⟨n.site, e⟩ := by
    rintro ⟨s, e⟩ _ rfl
    rfl
  have hname := hcomplete.exists_name?_iff hscope hgrows hd
  refine ⟨r, hrun, rfl, fun x hx m hm => hcomplete.exists_isMemberOf hx hm, ?nullable,
    ?transparent, ?unnamed, ?same, ?own⟩
  case nullable =>
    intro s m position hm hs
    rw [hm.nullableType_iff, hnode hs]
    exact alone_of_nullable halias hbody
  case transparent =>
    intro hother
    rw [← Bool.not_eq_true]
    intro hshape
    obtain ⟨base, hbase, hunion⟩ := namesShape_of_nullable hbody hshape
    cases hunion.symm.trans (hother base hbase)
  case unnamed =>
    intro hshape x hx hx'
    cases hshape.symm.trans (hname.mp ⟨x, hx, hx'⟩)
  case same =>
    intro hshape s m position s' m' position' hm hm' hs hs'
    have htype := hm.isAlternative
    have htype' := hm'.isAlternative
    rw [hnode hs] at htype
    rw [hnode hs'] at htype'
    exact htype.of_nullable halias hbody hshape htype'
  case own =>
    intro hshape
    obtain ⟨slot, hslot⟩ := exists_slotIn_of_mem (hcomplete.declared hd hshape)
    obtain ⟨shape, hgraph, hfills⟩ := hcomplete.filled (getElem?_of_slotIn hslot) id
    refine ⟨slot, _, hgraph, hfills.name?_eq_some_iff.mpr rfl, fun {s m position} hm hs => ?_⟩
    obtain ⟨t, ht, hdenotes⟩ := hm.isAlternative
    rw [hnode hs, Strips, strip_shape ne_promiseName_of_nil halias hshape] at ht
    have hown : Denotes file.declarations r.keys
        ⟨(typeOf s).site, .reference d.name [] position⟩ none (.node slot) :=
      .declared (hscope _ hd) hslot
    cases ht
    exact hdenotes.unique hown

/-- An alias that adds null to an interface. -/
def optionalAlias : Alias :=
  ⟨"M", .union [.reference "A" [] ⟨2, 10⟩, .keyword .null], none, ⟨2, 6⟩⟩

/-- The interface, the alias, and members of both types. -/
def optionalFile : SourceUnit where
  imports := []
  declarations := [
    .interface ⟨"A", [], [⟨"a", .keyword .string, false, false, none, ⟨1, 15⟩⟩], none, ⟨1, 11⟩⟩,
    .typeAlias optionalAlias,
    .interface ⟨"Q", [], [⟨"x", .reference "M" [] ⟨3, 18⟩, false, false, none, ⟨3, 15⟩⟩,
      ⟨"y", .reference "A" [] ⟨3, 24⟩, false, false, none, ⟨3, 21⟩⟩], none, ⟨3, 11⟩⟩]

def optionalTable : Graph := [
  ⟨1, .record "A" none [⟨"a", .primitive ⟨"string", "string", none⟩, none, false, false, none,
    none⟩]⟩,
  ⟨2, .record "Q" none [⟨"x", .node 0, none, false, true, none, none⟩,
    ⟨"y", .node 0, none, false, false, none, none⟩]⟩]

/-- Only the interface is left of the alias, so it has no descriptor. -/
theorem extract_optionalFile : extract false optionalFile = .ok optionalTable := by
  have hwritten : writtenAlternatives optionalFile.declarations optionalAlias.node =
      [⟨⟨"M", [0]⟩, .reference "A" [] ⟨2, 10⟩⟩] := by cbv
  cbv
  split
  · next h => cases hwritten.symm.trans h
  · next n h =>
    cases hwritten.symm.trans h
    cbv
  · next hsingle => exact absurd hwritten (hsingle _)

theorem addsNull_of_extract_optionalFile :
    extract false optionalFile = .ok optionalTable ∧
    .typeAlias optionalAlias ∈ optionalFile.declarations ∧
    IsNullableReference "A" optionalAlias.type ∧
    namesShape optionalFile.declarations optionalAlias = false ∧
    ∃ r, Yields (run false optionalFile) Registry.empty ⟨⟩ r ∧ r.graph = optionalTable ∧
      AddsNull ⟨optionalFile.declarations, false⟩ r optionalAlias "A" := by
  have hmem : .typeAlias optionalAlias ∈ optionalFile.declarations := .tail _ (.head _)
  have hbody : IsNullableReference "A" optionalAlias.type := by
    refine ⟨[], [.keyword .null], ⟨2, 10⟩, rfl, nofun, fun e' he' => ?_⟩
    rw [List.mem_singleton.mp he']
    rfl
  exact ⟨extract_optionalFile, hmem, hbody, by cbv,
    addsNull_of_extract extract_optionalFile hmem hbody⟩

/-! ### Aliases that take the alternatives of another -/

/-- An alias of a union, an alias that adds null to it, and a member. -/
def copyFile : SourceUnit where
  imports := []
  declarations := [
    .typeAlias ⟨"AB", .union [.reference "A" [] ⟨1, 11⟩, .reference "B" [] ⟨1, 15⟩], none, ⟨1, 6⟩⟩,
    .interface ⟨"A", [], [⟨"a", .keyword .string, false, false, none, ⟨2, 15⟩⟩], none, ⟨2, 11⟩⟩,
    .interface ⟨"B", [], [⟨"b", .keyword .string, false, false, none, ⟨3, 15⟩⟩], none, ⟨3, 11⟩⟩,
    .typeAlias ⟨"M", .union [.reference "AB" [] ⟨4, 10⟩, .keyword .null], none, ⟨4, 6⟩⟩,
    .interface ⟨"Q", [], [⟨"x", .reference "M" [] ⟨5, 18⟩, false, false, none, ⟨5, 15⟩⟩], none,
      ⟨5, 11⟩⟩]

def copyTable : Graph := [
  ⟨1, .union (some "AB") none [.node 1, .node 2]⟩,
  ⟨2, .record "A" none [⟨"a", .primitive ⟨"string", "string", none⟩, none, false, false, none,
    none⟩]⟩,
  ⟨3, .record "B" none [⟨"b", .primitive ⟨"string", "string", none⟩, none, false, false, none,
    none⟩]⟩,
  ⟨4, .union (some "M") none [.node 1, .node 2]⟩,
  ⟨5, .record "Q" none [⟨"x", .node 3, none, false, true, none, none⟩]⟩]

set_option maxRecDepth 4000 in
/-- **Copied unions.** An alias that adds null to an alias of a union has a descriptor of its own,
and its members are not of the type that the reference within it means. -/
theorem copies_union : extract false copyFile = .ok copyTable ∧
    (∃ d, .typeAlias d ∈ copyFile.declarations ∧ d.name = "M" ∧ IsNullableReference "AB" d.type) ∧
    ∃ x ∈ copyTable, x.shape.name? = some "M" := by
  have h : extract false copyFile = .ok copyTable := by cbv
  refine ⟨h, ⟨_, .tail _ (.tail _ (.tail _ (.head _))), rfl, [], [.keyword .null], ⟨4, 10⟩, rfl,
    List.cons_ne_nil _ _, fun e' he' => ?_⟩, _, .tail _ (.tail _ (.tail _ (.head _))), rfl⟩
  rw [List.mem_singleton.mp he']
  rfl

end Extraction

end DeclaredSchema
