import DeclaredSchema.Proofs.Extraction.Acceptance
import DeclaredSchema.Proofs.Extraction.NullableAlias

/-!
# Records are extracted once

An alias whose only alternative is an object type declares a record, and there is one descriptor for
it. A place that is stripped to a reference to the alias stands for this descriptor. Where several
alternatives are left, the place stands for a union; the unions within it are expanded, and as long
as the object type is the body of the alias, so that the reference stays, the descriptor is among
the alternatives of the union, or of a union among these.

A record alias that is written as a union with null is expanded with the other unions. Then its
object type is an alternative by itself, and gets a second descriptor without a name.

## Main definitions

* `Offers` — a type is found among the alternatives of unions
* `Supplies` — the object type from which a record has its members
* `IsOneRecord` — a record is in the table once, for all that mention it

## Main results

* `offersRecord_of_path` — what mentions a record offers it
* `exists_union_of_supplies` — why an object type supplies two records
* `isOneRecord_of_extract` — the table of every file has each record once
* `copies_record` — a record and an anonymous copy of it
-/

namespace DeclaredSchema

namespace Extraction

/-- The second type is an alternative of the union that the first refers to. -/
def IsOffered (g : Graph) (t t' : TypeRef) : Prop :=
  ∃ name doc types, g.shape? t = some (.union name doc types) ∧ t' ∈ types

/-- The second type is the first, or is found among the alternatives of unions. -/
def Offers (g : Graph) : TypeRef → TypeRef → Prop := Relation.ReflTransGen (IsOffered g)

/-- The record in the slot of the key has its members from the object type at the site. An interface
has no object type for itself. -/
inductive Supplies (ctx : ExtractionContext) (site : Site) : NodeKey → Prop
  | declared {d : Alias} {ps : List (Property TypeExpr)} {position : Position}
      (hd : .typeAlias d ∈ ctx.scope)
      (hobject : alternatives ctx.scope d.node = [⟨site, .object ps position⟩]) :
      Supplies ctx site (.declared d.name)
  | inline {ps : List (Property TypeExpr)} {position : Position}
      (hn : Resolved ctx ⟨site, .object ps position⟩) : Supplies ctx site (.inline site)

variable {ctx : ExtractionContext} {r : Registry} {n m l : Node} {s : Site} {e e' : TypeExpr}
  {t t' : TypeRef} {raw : Option String} {key key' : NodeKey} {slot : Nat} {d : Alias}
  {position : Position}

/-! ### Places that are stripped -/

/-- No type that is stripped is the body of a declaration. -/
theorem path_ne_nil_of_mem_parts {sig : Signature} (h : sig.site.path ≠ []) (hn : n ∈ parts sig) :
    n.site.path ≠ [] := by
  have hresult : (resultOf sig).site.path ≠ [] := by
    unfold resultOf
    split
    · exact List.cons_ne_nil _ _
    · exact h
  have htype : (typeOf sig).site.path ≠ [] := by
    unfold typeOf splitDefaultOf
    split
    · split
      · exact List.cons_ne_nil _ _
      · exact hresult
    · exact hresult
  obtain rfl | ⟨p, -, rfl⟩ := mem_parts.mp hn
  · exact htype
  · exact List.cons_ne_nil _ _

theorem path_ne_nil_of_mem_signatures {owner : String} {ps : List (Property TypeExpr)}
    {sig : Signature} (h : sig ∈ s.signatures owner ps) : sig.site.path ≠ [] := by
  obtain ⟨⟨p, i⟩, -, rfl⟩ := List.mem_map.mp h
  exact List.cons_ne_nil _ _

/-- What an alias of a union needs are leaves of the union. -/
theorem isUnion_of_not_object (hshape : namesShape ctx.scope d = true)
    (hother : ∀ site ps position, alternatives ctx.scope d.node ≠ [⟨site, .object ps position⟩]) :
    d.type.isUnion = true := by
  refine isUnion_of_namesShape hshape ?_
  rw [← Bool.not_eq_true]
  intro hobject
  have hnode : d.node.expr.isObject = true := hobject
  obtain ⟨ps, position, htype⟩ := exists_eq_object hobject
  refine hother (Site.body d.name) ps position ?_
  rw [alternatives_of_isObject hnode, Alias.node, htype]

/-- **No type that is stripped is the body of a declaration.** -/
theorem Needed.path_ne_nil (hscope : IsUnambiguous ctx.scope) (h : Needed ctx n) :
    n.site.path ≠ [] := by
  cases h with
  | @declared d _ hd hn =>
    cases d with
    | interface d =>
      obtain ⟨step, hstep, hn⟩ := List.mem_flatMap.mp hn
      cases step with
      | member sig =>
        obtain ⟨s, ps, position, owner, -, hsig⟩ := isWritten_of_mem_lineage (hscope _ hd) hstep
        exact path_ne_nil_of_mem_parts (path_ne_nil_of_mem_signatures hsig) hn
      | inheritsItself | notABase => cases hn
    | enumeration d => cases hn
    | typeAlias d =>
      simp only [declarationNeeds] at hn
      split at hn
      · next hshape =>
        split at hn
        · obtain ⟨sig, hsig, hn⟩ := List.mem_flatMap.mp hn
          exact path_ne_nil_of_mem_parts (path_ne_nil_of_mem_signatures hsig) hn
        · next hother =>
          split at hn
          · cases hn
          · exact path_ne_nil_of_mem_alternatives (.inr (isUnion_of_not_object hshape hother)) hn
      · cases hn
  | @nested m _ _ hn =>
    obtain ⟨s, e⟩ := m
    unfold needs at hn
    split at hn
    · rw [List.mem_singleton.mp hn]
      exact List.cons_ne_nil _ _
    · obtain ⟨sig, hsig, hn⟩ := List.mem_flatMap.mp hn
      exact path_ne_nil_of_mem_parts (path_ne_nil_of_mem_signatures hsig) hn
    · next he =>
      refine path_ne_nil_of_mem_alternatives (.inr ?_) hn
      rw [he]
      rfl
    · split at hn
      · rw [List.mem_singleton.mp hn]
        exact List.cons_ne_nil _ _
      · cases hn
    · cases hn

/-- An inline object type that is resolved is no body of a declaration. -/
theorem Resolved.path_ne_nil (hscope : IsUnambiguous ctx.scope) (h : Resolved ctx n)
    (hobject : n.expr.isObject = true) : n.site.path ≠ [] := by
  cases h with
  | declared hd hn ht =>
    exact path_ne_nil_of_unwraps ht.unwraps (Needed.path_ne_nil hscope (.declared hd hn)) hobject
  | nested hm hn ht =>
    exact path_ne_nil_of_unwraps ht.unwraps (Needed.path_ne_nil hscope (.nested hm hn)) hobject

/-! ### Object types that supply records -/

/-- An alias whose only alternative is the body of an alias is this alias. -/
theorem name_eq_of_alternatives {name : String}
    (h : alternatives ctx.scope d.node = [⟨Site.body name, e⟩]) : d.name = name := by
  have hmem : ⟨Site.body name, e⟩ ∈ alternatives ctx.scope d.node := h ▸ List.mem_singleton_self _
  have hunion : ¬d.node.expr.isUnion = true := fun hunion =>
    path_ne_nil_of_mem_alternatives (.inr hunion) hmem rfl
  rw [alternatives, if_neg hunion, List.singleton_inj, Alias.node] at h
  exact congrArg (fun n : Node => n.site.declaration) h

/-- The body of an alias supplies the record of this alias only. -/
theorem Supplies.eq_declared (hscope : IsUnambiguous ctx.scope) {name : String}
    (h : Supplies ctx (Site.body name) key) : key = .declared name := by
  cases h with
  | declared _ hobject => rw [name_eq_of_alternatives hobject]
  | inline hn => exact absurd rfl (hn.path_ne_nil hscope rfl)

/-- **An object type that supplies two records** is the only alternative of an alias of a union. -/
theorem exists_union_of_supplies (hscope : IsUnambiguous ctx.scope) {site : Site}
    (h : Supplies ctx site key) (h' : Supplies ctx site key') (hne : key ≠ key') :
    ∃ d, .typeAlias d ∈ ctx.scope ∧ d.type.isUnion = true ∧
      Supplies ctx site (.declared d.name) := by
  have hcases : ∀ {key}, Supplies ctx site key → key = .inline site ∨
      key = .declared site.declaration ∧ site.path = [] ∨
      ∃ d, .typeAlias d ∈ ctx.scope ∧ d.type.isUnion = true ∧
        Supplies ctx site (.declared d.name) := by
    intro key h
    cases h with
    | inline => exact .inl rfl
    | @declared d ps position hd hobject =>
      by_cases hunion : d.type.isUnion = true
      · exact .inr (.inr ⟨d, hd, hunion, .declared hd hobject⟩)
      · have hnode : ¬d.node.expr.isUnion = true := hunion
        rw [alternatives, if_neg hnode, List.singleton_inj, Alias.node] at hobject
        obtain ⟨rfl, -⟩ := Node.mk.inj hobject
        exact .inr (.inl ⟨rfl, rfl⟩)
  have hinline : ∀ {key}, Supplies ctx site key → key = .inline site → site.path ≠ [] := by
    rintro key h rfl
    cases h with
    | inline hn => exact hn.path_ne_nil hscope rfl
  rcases hcases h with rfl | ⟨rfl, hnil⟩ | hd
  · rcases hcases h' with rfl | ⟨rfl, hnil⟩ | hd
    · exact absurd rfl hne
    · exact absurd hnil (hinline h rfl)
    · exact hd
  · rcases hcases h' with rfl | ⟨rfl, -⟩ | hd
    · exact absurd hnil (hinline h' rfl)
    · exact absurd rfl hne
    · exact hd
  · exact hd

/-! ### Places that mention a record -/

section Complete

variable (hscope : IsUnambiguous ctx.scope) (hcomplete : IsComplete ctx r)
  (hd : .typeAlias d ∈ ctx.scope) (hobject : d.type.isObject = true)
  (hslot : slotIn r.keys (.declared d.name) = some slot)

/-- A leaf of a union leads nowhere, or stands for something that the union offers. -/
def IsOfferedLeaf (ctx : ExtractionContext) (r : Registry) (t : TypeRef) (l : Node) : Prop :=
  l.expr.isObject = true ∨ l.expr.literal?.isSome = true ∨
    ∃ t', Needed ctx l ∧ IsAlternative ctx.scope r.keys l t' ∧ Offers r.graph t t'

/-- The alternatives of a union in the table are offered by the slot of the union. -/
theorem isOfferedLeaf_of_forall₂ {ns : List Node} {name doc : Option String} {id : Int}
    {types : List TypeRef} (hgraph : r.graph[slot]? = some ⟨id, .union name doc types⟩)
    (hneeded : ∀ n ∈ ns, Needed ctx n)
    (h : List.Forall₂ (IsAlternative ctx.scope r.keys) ns types) :
    ∀ n ∈ ns, IsOfferedLeaf ctx r (.node slot) n := by
  intro n hn
  obtain ⟨t', ht', halternative⟩ := exists_of_forall₂ h hn
  refine .inr (.inr ⟨t', hneeded n hn, halternative, .single ⟨name, doc, types, ?_, ht'⟩⟩)
  rw [Graph.shape?, hgraph, Option.map_some]

include hscope hcomplete in
/-- The leaves of an inline union. -/
theorem isOfferedLeaf_inline {es : List TypeExpr} (hn : Resolved ctx ⟨s, .union es⟩)
    (hslot : slotIn r.keys (.inline s) = some slot) :
    ∀ l ∈ alternatives ctx.scope ⟨s, .union es⟩, IsOfferedLeaf ctx r (.node slot) l := by
  obtain ⟨shape, hgraph, hfills⟩ := hcomplete.filled (getElem?_of_slotIn hslot) id
  cases hfills.completesInline hscope (hn.isAt hscope) with
  | union h => exact isOfferedLeaf_of_forall₂ hgraph (fun l hl => .nested hn hl) h

include hscope hcomplete in
/-- The leaves of an alias that names a shape. -/
theorem isOfferedLeaf_declared (hd : .typeAlias d ∈ ctx.scope)
    (hslot : slotIn r.keys (.declared d.name) = some slot) :
    ∀ l ∈ alternatives ctx.scope d.node, IsOfferedLeaf ctx r (.node slot) l := by
  obtain ⟨shape, hgraph, hfills⟩ := hcomplete.filled (getElem?_of_slotIn hslot) id
  cases hfills.completesDeclaration hscope hd with
  | objectAlias hshape hobject h =>
    intro l hl
    rw [hobject, List.mem_singleton] at hl
    rw [hl]
    exact .inl rfl
  | unionAlias hshape hunion htexts h =>
    refine isOfferedLeaf_of_forall₂ hgraph (fun l hl => .declared hd ?_) h
    rwa [declarationNeeds_union hshape hunion htexts]
  | textAlias hshape htexts =>
    intro l hl
    rw [isTextEnumeration, Bool.and_eq_true, List.all_eq_true] at htexts
    refine .inr (.inl ?_)
    have htext := htexts.2 l hl
    rw [TypeExpr.text?, Option.isSome_bind] at htext
    exact Option.isSome_of_any htext

/-- A type with an argument that stands for something is an array. -/
theorem Denotes.contains_arrayNames {scope : Scope} {keys : List NodeKey} {name : String}
    (h : Denotes scope keys ⟨s, .reference name [e] position⟩ raw t) :
    arrayNames.contains name = true := by
  cases h with
  | arrayName _ hname => exact hname

/-- What is said of a type from which a record can be reached: what the type stands for offers the
record, and so does whatever offers its leaves. -/
structure OffersRecord (ctx : ExtractionContext) (r : Registry) (slot : Nat) (e : TypeExpr) :
    Prop where
  stripped : ∀ {s m raw t}, Relation.ReflTransGen (Unwraps ctx.scope) ⟨s, e⟩ m → Resolved ctx m →
    Denotes ctx.scope r.keys m raw t → Offers r.graph t (.node slot)
  flattened : ∀ seen s {t}, (∀ l ∈ flatten ctx.scope seen s e, l.isNullish = false →
    IsOfferedLeaf ctx r t l) → Offers r.graph t (.node slot)

/-- If a type has no leaves but itself, it is enough to strip it. -/
theorem OffersRecord.of_stripped {scope : Scope} (hscope : ctx.scope = scope) {name : String}
    (hpath : Relation.ReflTransGen (Down scope) e (.reference name [] position))
    (hleaf : ∀ seen s, flatten scope seen s e = [⟨s, e⟩] ∨ ∀ t,
      (∀ l ∈ flatten scope seen s e, l.isNullish = false → IsOfferedLeaf ctx r t l) →
        Offers r.graph t (.node slot))
    (hstripped : ∀ {s m raw t}, Relation.ReflTransGen (Unwraps scope) ⟨s, e⟩ m →
      Resolved ctx m → Denotes scope r.keys m raw t → Offers r.graph t (.node slot)) :
    OffersRecord ctx r slot e := by
  subst hscope
  refine ⟨hstripped, fun seen s {t} hleaves => ?_⟩
  rcases hleaf seen s with hself | hflattened
  · have hkind : e.isNullish = false ∧ e.isObject = false ∧ e.literal?.isSome = false := by
      rcases hpath.cases_head with rfl | ⟨e', hdown, -⟩
      · exact ⟨rfl, rfl, rfl⟩
      · cases hdown <;> exact ⟨rfl, rfl, rfl⟩
    rw [hself] at hleaves
    rcases hleaves ⟨s, e⟩ (List.mem_singleton_self _) hkind.1 with h | h | ⟨t', hn, ht', hoffers⟩
    · cases hkind.2.1.symm.trans h
    · cases hkind.2.2.symm.trans h
    · obtain ⟨inner, hstrips, hdenotes⟩ := ht'
      exact hoffers.trans (hstripped hstrips.unwraps (hn.resolved hstrips) hdenotes)
  · exact hflattened t hleaves

/-- A step towards a record is taken by stripping, unless stripping is done. -/
theorem OffersRecord.stripped_of_down (h : OffersRecord ctx r slot e')
    (hdown : Down ctx.scope e e') (hother : AdmitsOther ctx.scope e')
    (hend : ∀ {s raw t}, Resolved ctx ⟨s, e⟩ → Denotes ctx.scope r.keys ⟨s, e⟩ raw t →
      Offers r.graph t (.node slot))
    (hunwraps : Relation.ReflTransGen (Unwraps ctx.scope) ⟨s, e⟩ m) (hm : Resolved ctx m)
    (hdenotes : Denotes ctx.scope r.keys m raw t) : Offers r.graph t (.node slot) := by
  rcases hunwraps.cases_head with rfl | ⟨⟨s', l⟩, hstep, hunwraps⟩
  · exact hend hm hdenotes
  · obtain rfl : e' = l := hstep.eq_of_down hdown hother
    exact h.stripped hunwraps hm hdenotes

include hscope hcomplete in
/-- An alias that a path towards a record goes through offers the record, if it names a shape. -/
theorem OffersRecord.of_alias {d' : Alias} {arguments : List TypeExpr}
    (h : OffersRecord ctx r slot d'.type)
    (hpath : Relation.ReflTransGen (Down ctx.scope) d'.type (.reference d.name [] position))
    {name : String} (hd' : ctx.scope.alias? name = some d') {position' : Position}
    (hdenotes : Denotes ctx.scope r.keys ⟨s, .reference name arguments position'⟩ raw t) :
    Offers r.graph t (.node slot) := by
  have hfind := Scope.find?_of_alias? hd'
  cases hdenotes with
  | declared _ hslot' =>
    have hmem := Scope.mem_of_find? hfind
    obtain rfl : d'.name = name := Scope.name_of_find? hfind
    by_cases hunion : d'.type.isUnion = true
    · have hleaves := isOfferedLeaf_declared hscope hcomplete hmem hslot'
      refine h.flattened [] (Site.body d'.name) fun l hl hnullish => hleaves l ?_
      have hnode : d'.node.expr.isUnion = true := hunion
      rw [alternatives, if_pos hnode]
      exact List.mem_filter.mpr ⟨hl, by rw [hnullish]; rfl⟩
    · -- a shape that is no union is an object type, from which no step leads on
      obtain ⟨shape, hfills⟩ := hcomplete.fills (List.mem_of_getElem? (getElem?_of_slotIn hslot'))
      have hobject : d'.type.isObject = true := by
        by_contra hother
        exact hunion (isUnion_of_namesShape (hfills.hasSlot hscope hmem)
          (Bool.eq_false_iff.mpr hother))
      rcases hpath.cases_head with heq | ⟨_, hdown, -⟩
      · rw [heq] at hobject
        cases hobject
      · exact absurd hdown (not_down_of_isObject hobject)
  | arrayName hnone | date hnone | openScalar hnone => cases hfind.symm.trans hnone

include hscope hcomplete hd hobject hslot in
/-- **What mentions a record offers it.** -/
theorem offersRecord_of_path
    (hpath : Relation.ReflTransGen (Down ctx.scope) e (.reference d.name [] position)) :
    OffersRecord ctx r slot e := by
  have halias := hscope.alias?_of_mem hd
  induction hpath using Relation.ReflTransGen.head_induction_on with
  | refl =>
    have hunion : ¬d.type.isUnion = true := by
      obtain ⟨ps, position, htype⟩ := exists_eq_object hobject
      rw [htype]
      exact Bool.false_ne_true
    refine .of_stripped rfl .refl (fun seen s => .inl (flatten_known halias fun h => hunion h.1)) ?_
    intro s m raw t hunwraps hm hdenotes
    rcases hunwraps.cases_head with rfl | ⟨l, hstep, -⟩
    · rw [hdenotes.unique (.declared (hscope _ hd) hslot)]
      exact .refl
    · exact absurd hstep (not_unwraps_of_isObject halias hobject)
  | @head e e' hdown hpath ih =>
    have hother := admitsOther_of_object halias hobject hpath
    have hwhole := hpath.head hdown
    cases hdown with
    | @member es _ he =>
      have hflattened : ∀ seen s {t}, (∀ l ∈ flatten ctx.scope seen s (.union es),
          l.isNullish = false → IsOfferedLeaf ctx r t l) → Offers r.graph t (.node slot) := by
        intro seen s t hleaves
        obtain ⟨i, hi⟩ := mem_site_nodes he s
        refine ih.flattened seen (s.child i) fun l hl => hleaves l ?_
        exact mem_flatten_union.mpr ⟨_, hi, hl⟩
      refine ⟨ih.stripped_of_down (.member he) hother ?_, hflattened⟩
      intro s raw t hn hdenotes
      cases hdenotes with
      | union hslot' =>
        have hleaves := isOfferedLeaf_inline hscope hcomplete hn hslot'
        refine hflattened [] s fun l hl hnullish => hleaves l ?_
        rw [alternatives, if_pos (by rfl)]
        exact List.mem_filter.mpr ⟨hl, by rw [hnullish]; rfl⟩
    | @promise _ position' =>
      refine .of_stripped rfl hwhole (fun seen s => ?_)
        (ih.stripped_of_down .promise hother ?_)
      · rcases flatten_cases seen s (.reference promiseName [e'] position') with
          ⟨es, h⟩ | ⟨name, position, d', h, -⟩ | h
        · cases h
        · cases h
        · exact .inl h.2
      · intro s raw t hn hdenotes
        exact absurd hdenotes.contains_arrayNames (by decide)
    | @through name arguments position' d' hpromise hd' =>
      refine .of_stripped rfl hwhole (fun seen s => ?_)
        (ih.stripped_of_down (.through hpromise hd') hother ?_)
      · rcases flatten_cases seen s (.reference name arguments position') with
          ⟨es, h⟩ | ⟨name, position, d'', h, hd'', -, hflatten⟩ | h
        · cases h
        · cases h
          obtain rfl := Option.some.inj (hd'.symm.trans hd'')
          refine .inr fun t hleaves => ?_
          rw [hflatten] at hleaves
          exact ih.flattened _ _ hleaves
        · exact .inl h.2
      · exact fun hn hdenotes => ih.of_alias hscope hcomplete hpath hd' hdenotes

end Complete

/-! ### One record for each declaration -/

/-- What holds of the record that an alias declares, in the table of a file. -/
structure IsOneRecord (ctx : ExtractionContext) (r : Registry) (d : Alias) (slot : Nat) : Prop where
  /-- The record is named after the alias. -/
  record : ∃ id ms, r.graph[slot]? = some ⟨id, .record d.name d.doc ms⟩
  /-- No other descriptor has the name. -/
  only : ∀ {i : Nat} {x : Descriptor}, r.graph[i]? = some x → x.shape.name? = some d.name → i = slot
  /-- A place that is a reference to the alias besides its wrappings stands for the record. -/
  named : ∀ {n t position}, Needed ctx n → Strips ctx.scope n t →
    t.node.expr = .reference d.name [] position → ∀ {ref},
    IsAlternative ctx.scope r.keys n ref ↔ ref = .node slot
  /-- What a place stands for that mentions the alias in any other way offers the record. -/
  offered : d.type.isObject = true → ∀ {n}, Needed ctx n → AdmitsReference ctx.scope d.name n.expr →
    ∃ ref, IsAlternative ctx.scope r.keys n ref ∧ Offers r.graph ref (.node slot)
  /-- The object type supplies no other record. -/
  supplied : d.type.isObject = true → ∀ {key}, Supplies ctx (Site.body d.name) key →
    key = .declared d.name

/-- Every record is that of an interface or is supplied by an object type. -/
theorem Fills.exists_supplies {keys : List NodeKey} {records : Nat → Prop} {shape : Shape}
    (h : Fills ctx keys records (Resolved ctx) key shape) (hrecord : shape.members?.isSome = true) :
    (∃ d, .interface d ∈ ctx.scope ∧ key = .declared d.name) ∨ ∃ site, Supplies ctx site key := by
  cases h with
  | interface hd => exact .inl ⟨_, hd, rfl⟩
  | objectAlias hd hshape hobject => exact .inr ⟨_, .declared hd hobject⟩
  | object hn => exact .inr ⟨_, .inline hn⟩
  | enumeration | unionAlias | textAlias | union => cases hrecord

/-- The slot of an alias whose only alternative is an object type is a record. -/
theorem Fills.exists_eq_record (hscope : IsUnambiguous ctx.scope) {keys : List NodeKey}
    {records : Nat → Prop} {asked : Node → Prop} {shape : Shape} (hd : .typeAlias d ∈ ctx.scope)
    {site : Site} {ps : List (Property TypeExpr)}
    (hrecord : alternatives ctx.scope d.node = [⟨site, .object ps position⟩])
    (h : Fills ctx keys records asked (.declared d.name) shape) :
    ∃ ms, shape = .record d.name d.doc ms := by
  obtain ⟨ms, -, rfl⟩ := (h.completesDeclaration hscope hd).of_object hrecord
  exact ⟨ms, rfl⟩

/-- **Records are extracted once.** What is in a slot is what the types that its key needs stand
for. An alias that names a record has one descriptor, for which every reference to it stands; if the
alias is written as an object type, whatever mentions it in other ways offers this descriptor, and
its object type supplies no other. An object type only supplies two descriptors where an alias of a
union has it as its only alternative. -/
theorem isOneRecord_of_extract {unionsAsEnums : Bool} {file : SourceUnit} {g : Graph}
    (h : extract unionsAsEnums file = .ok g) :
    let ctx : ExtractionContext := ⟨file.declarations, unionsAsEnums⟩
    ∃ r, Yields (run unionsAsEnums file) Registry.empty ⟨⟩ r ∧ r.graph = g ∧
      (∀ {slot : Nat} {x : Descriptor}, g[slot]? = some x → ∃ key, r.keys[slot]? = some key ∧
        Fills ctx r.keys (recordsOf r) (Resolved ctx) key x.shape ∧
        (x.shape.members?.isSome = true →
          (∃ d, .interface d ∈ ctx.scope ∧ key = .declared d.name) ∨
            ∃ site, Supplies ctx site key)) ∧
      (∀ d site ps position, .typeAlias d ∈ ctx.scope →
        alternatives ctx.scope d.node = [⟨site, .object ps position⟩] →
        ∃ slot, IsOneRecord ctx r d slot) ∧
      ∀ {i j : Nat} {site key key'}, r.keys[i]? = some key → r.keys[j]? = some key' →
        Supplies ctx site key → Supplies ctx site key' → i ≠ j →
        ∃ d, .typeAlias d ∈ ctx.scope ∧ d.type.isUnion = true ∧
          Supplies ctx site (.declared d.name) := by
  intro ctx
  obtain ⟨r, hrun, rfl⟩ := yields_of_extract h
  obtain ⟨hscope, hcomplete, hgrows⟩ := isComplete_of_run hrun
  have hnodup : r.keys.Nodup := hgrows.nodup List.nodup_nil
  refine ⟨r, hrun, rfl, ?filled, ?records, ?twice⟩
  case filled =>
    intro slot x hx
    obtain ⟨key, hkey, hfills⟩ := hcomplete.exists_key hx
    exact ⟨key, hkey, hfills, hfills.exists_supplies⟩
  case twice =>
    intro i j site key key' hi hj hsupplies hsupplies' hne
    refine exists_union_of_supplies hscope hsupplies hsupplies' ?_
    rintro rfl
    obtain ⟨hlt, hkey⟩ := List.getElem?_eq_some_iff.mp hi
    obtain ⟨hlt', hkey'⟩ := List.getElem?_eq_some_iff.mp hj
    exact hne ((List.Nodup.getElem_inj_iff hnodup).mp (hkey.trans hkey'.symm))
  case records =>
    intro d site ps position hd hrecord
    have hshape : namesShape ctx.scope d = true := by
      rw [namesShape, hrecord]
      rfl
    obtain ⟨slot, hslot⟩ := exists_slotIn_of_mem (hcomplete.declared hd hshape)
    obtain ⟨shape, hgraph, hfills⟩ := hcomplete.filled (getElem?_of_slotIn hslot) id
    refine ⟨slot, ?record, ?only, ?named, ?offered, ?supplied⟩
    case record =>
      obtain ⟨ms, rfl⟩ := hfills.exists_eq_record hscope hd hrecord
      exact ⟨_, ms, hgraph⟩
    case only =>
      intro i x hx hname
      obtain ⟨key, hkey, hfills'⟩ := hcomplete.exists_key hx
      obtain rfl := hfills'.name?_eq_some_iff.mp hname
      exact (eq_of_slotIn hnodup hslot i).mp hkey
    case named =>
      rintro n ⟨⟨s, e⟩, nullable, raw⟩ position' - hstrips rfl ref
      have hdenotes : Denotes ctx.scope r.keys ⟨s, .reference d.name [] position'⟩ raw
          (.node slot) := .declared (hscope _ hd) hslot
      have hstands : IsAlternative ctx.scope r.keys n (.node slot) := ⟨_, hstrips, hdenotes⟩
      exact ⟨fun href => href.unique hstands, fun href => href ▸ hstands⟩
    case offered =>
      rintro hobject ⟨s, e⟩ hn ⟨position', hpath⟩
      obtain ⟨ref, t, hstrips, hdenotes⟩ := exists_isAlternative_of_needed hscope hcomplete hn
      refine ⟨ref, ⟨t, hstrips, hdenotes⟩, ?_⟩
      exact (offersRecord_of_path hscope hcomplete hd hobject hslot hpath).stripped
        hstrips.unwraps (hn.resolved hstrips) hdenotes
    case supplied =>
      exact fun _ _ hsupplies => hsupplies.eq_declared hscope

/-- An alias of an object type. -/
def pointAlias : Alias :=
  ⟨"D", .object [⟨"x", .keyword .string, false, false, none, ⟨1, 12⟩⟩] ⟨1, 10⟩, none, ⟨1, 6⟩⟩

/-- The alias, as arguments by another name, as the element of an array and in a union. -/
def pointFile : SourceUnit where
  imports := []
  declarations := [
    .typeAlias pointAlias,
    .typeAlias ⟨"T", .reference "D" [] ⟨2, 10⟩, none, ⟨2, 6⟩⟩,
    .typeAlias ⟨"U", .union [.reference "T" [] ⟨3, 10⟩, .reference "Q" [] ⟨3, 14⟩], none, ⟨3, 6⟩⟩,
    .interface ⟨"Q", [], [
      ⟨"a", .function [⟨"p", .reference "T" [] ⟨4, 20⟩, false⟩]
        (.array (.reference "D" [] ⟨4, 24⟩)), false, false, none, ⟨4, 15⟩⟩,
      ⟨"b", .reference "U" [] ⟨4, 32⟩, false, false, none, ⟨4, 29⟩⟩], none, ⟨4, 11⟩⟩]

def pointTable : Graph := [
  ⟨1, .record "D" none [⟨"x", .primitive ⟨"string", "string", none⟩, none, false, false, none,
    none⟩]⟩,
  ⟨2, .union (some "U") none [.node 0, .node 2]⟩,
  ⟨3, .record "Q" none [⟨"a", .array (.node 0), none, false, false, none, some 0⟩,
    ⟨"b", .node 1, none, false, false, none, none⟩]⟩]

set_option maxRecDepth 4000 in
theorem isOneRecord_of_extract_pointFile : extract false pointFile = .ok pointTable ∧
    ∃ r, Yields (run false pointFile) Registry.empty ⟨⟩ r ∧ r.graph = pointTable ∧
      ∃ slot, IsOneRecord ⟨pointFile.declarations, false⟩ r pointAlias slot := by
  have h : extract false pointFile = .ok pointTable := by cbv
  obtain ⟨r, hrun, hgraph, -, hrecords, -⟩ := isOneRecord_of_extract h
  exact ⟨h, r, hrun, hgraph, hrecords pointAlias _ _ _ (.head _) rfl⟩

/-! ### Records that are copied -/

/-- A record alias that is written as a union with null, and another union with it. -/
def copiedAlias : Alias :=
  ⟨"D", .union [.object [⟨"x", .keyword .string, false, false, none, ⟨1, 12⟩⟩] ⟨1, 10⟩,
    .keyword .null], none, ⟨1, 6⟩⟩

def copiedFile : SourceUnit where
  imports := []
  declarations := [
    .typeAlias copiedAlias,
    .interface ⟨"E", [], [⟨"y", .keyword .string, false, false, none, ⟨2, 15⟩⟩], none, ⟨2, 11⟩⟩,
    .typeAlias ⟨"U", .union [.reference "D" [] ⟨3, 10⟩, .reference "E" [] ⟨3, 14⟩], none, ⟨3, 6⟩⟩]

def copiedTable : Graph := [
  ⟨1, .record "D" none [⟨"x", .primitive ⟨"string", "string", none⟩, none, false, false, none,
    none⟩]⟩,
  ⟨2, .record "E" none [⟨"y", .primitive ⟨"string", "string", none⟩, none, false, false, none,
    none⟩]⟩,
  ⟨3, .union (some "U") none [.node 3, .node 1]⟩,
  ⟨4, .inlineRecord "U, line 1" none [⟨"x", .primitive ⟨"string", "string", none⟩, none, false,
    false, none, none⟩]⟩]

/-- **Copied records.** The only alternative of the alias is an object type, but a union that
mentions the alias has an anonymous copy of the record as its alternative. -/
theorem copies_record : extract false copiedFile = .ok copiedTable ∧
    .typeAlias copiedAlias ∈ copiedFile.declarations ∧
    (∃ site ps position, alternatives copiedFile.declarations copiedAlias.node =
      [⟨site, .object ps position⟩]) ∧
    ¬Offers copiedTable (.node 2) (.node 0) := by
  have h : extract false copiedFile = .ok copiedTable := by cbv
  have hend : ∀ {slot : Nat} {t : TypeRef}, slot = 1 ∨ slot = 3 →
      Offers copiedTable (.node slot) t → t = .node slot := by
    intro slot t hslot hoffers
    rcases hoffers.cases_head with rfl | ⟨t', ⟨name, doc, types, hshape, -⟩, -⟩
    · rfl
    · rcases hslot with rfl | rfl <;> cases hshape
  refine ⟨h, .head _, ⟨⟨"D", [0]⟩, _, _, by cbv⟩, fun hoffers => ?_⟩
  rcases hoffers.cases_head with heq | ⟨t, ⟨name, doc, types, hshape, ht⟩, hoffers⟩
  · cases heq
  · cases hshape
    rcases List.mem_cons.mp ht with rfl | ht
    · cases hend (.inr rfl) hoffers
    · rw [List.mem_singleton.mp ht] at hoffers
      cases hend (.inl rfl) hoffers

end Extraction

end DeclaredSchema
