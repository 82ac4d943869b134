import DeclaredSchema.Proofs.Extraction.Resolve
import DeclaredSchema.Proofs.Failure
import Mathlib

/-!
# The table of a file

When all declarations of a file are resolved, nothing is underway any more: each declaration that
names a shape, and each inline object or union type that is resolved, has one slot, and what stands
in the slot is all that its key stands for. Whoever asked for a slot on the way has got the one that
stands in the table at the end.

## Main definitions

* `keyOf?` — the key under which a type is found again
* `Shape.slots`, `Leads` — from a descriptor to those that it mentions
* `IsTable` — what the table of a file is
* `runWithin`, `extractWithin` — extraction with any bound on nested resolutions

## Main results

* `isTable_of_extract` — the table of every file is so
-/

namespace DeclaredSchema

/-! ### From slot to slot -/

/-- The slot that a type refers to, itself or as the element of an array. -/
def TypeRef.slot? : TypeRef → Option Nat
  | .array element => element.slot?
  | .node slot => some slot
  | _ => none

/-- The slots that a member refers to, by its type and by its arguments. -/
def Member.slots (m : Member) : List Nat := m.type.slot?.toList ++ m.arguments.toList

/-- The slots that a shape refers to. -/
def Shape.slots : Shape → List Nat
  | .record _ _ members | .inlineRecord _ _ members => members.flatMap Member.slots
  | .union _ _ types | .enumeration _ _ types => types.filterMap TypeRef.slot?

namespace Extraction

/-- The descriptor in slot `i` mentions slot `j`. -/
def Leads (g : Graph) (i j : Nat) : Prop := ∃ d : Descriptor, g[i]? = some d ∧ j ∈ d.shape.slots

/-- The key under which a type is found again: its place, or the declaration that it names. -/
def keyOf? (scope : Scope) (n : Node) : Option NodeKey :=
  match n.expr with
  | .object _ _ | .union _ => some (.inline n.site)
  | .reference name [] _ => (scope.find? name).map fun _ => .declared name
  | _ => none

/-- What holds of the table in which all declarations are resolved. -/
structure IsTable (ctx : ExtractionContext) (r : Registry) : Prop where
  /-- Descriptors are numbered from one in the order of the table. -/
  ids : ∀ {slot : Nat} {d : Descriptor}, r.graph[slot]? = some d → d.id = slot + 1
  /-- Each descriptor has a key. -/
  length : r.keys.length = r.graph.length
  /-- No key has two descriptors. -/
  nodup : r.keys.Nodup
  /-- Interfaces, enumerations and aliases that name a shape have descriptors, and no others. -/
  declared : ∀ {name}, .declared name ∈ r.keys ↔
    ∃ d ∈ ctx.scope, d.name = name ∧ hasSlot ctx.scope d = true
  /-- Inline objects and unions that are resolved have descriptors, and no others. -/
  inline : ∀ {s}, .inline s ∈ r.keys ↔
    ∃ n, Resolved ctx n ∧ n.site = s ∧ (n.expr.isObject = true ∨ n.expr.isUnion = true)
  /-- No descriptor is partial: each has all that its key stands for. -/
  filled : ∀ {slot : Nat} {key}, r.keys[slot]? = some key →
    ∃ d : Descriptor, r.graph[slot]? = some d ∧
      Fills ctx r.keys (recordsOf r) (Resolved ctx) key d.shape
  /-- Whenever a type was resolved, the outcome was what it stands for in the end. -/
  denotes : ∀ {depth n raw owner before t after}, before.keys.length = before.graph.length →
    after.keys <+: r.keys → Yields (resolve ctx depth n raw owner) before t after →
    Denotes ctx.scope r.keys n raw t
  /-- Whenever a key was asked for by a type, the outcome was the one descriptor of that key. -/
  same : ∀ {depth n raw owner before t after key}, before.keys.length = before.graph.length →
    after.keys <+: r.keys → Yields (resolve ctx depth n raw owner) before t after →
    keyOf? ctx.scope n = some key →
      ∃ slot, t = .node slot ∧ ∀ i : Nat, r.keys[i]? = some key ↔ i = slot
  /-- Whenever the slot of a declaration was asked for, the outcome was its one descriptor. -/
  slotFor : ∀ {depth d before slot after}, d ∈ ctx.scope →
    before.keys.length = before.graph.length → after.keys <+: r.keys →
    Yields (slotFor ctx (resolve ctx depth) d) before (some slot) after →
    ∀ i : Nat, r.keys[i]? = some (.declared d.name) ↔ i = slot
  /-- All that can be reached from a descriptor is in the table. -/
  closed : ∀ {i j : Nat}, i < r.graph.length → Relation.ReflTransGen (Leads r.graph) i j →
    j < r.graph.length
  /-- Arguments are the members of a record of the table. -/
  arguments : ∀ {d : Descriptor} {m slot}, d ∈ r.graph → m ∈ d.shape.members → m.arguments = some slot →
    ∃ bag : Descriptor, r.graph[slot]? = some bag ∧ bag.shape.members?.isSome = true
  /-- A union has at least two alternatives. -/
  alternatives : ∀ {d : Descriptor} {name doc types}, d ∈ r.graph → d.shape = .union name doc types →
    2 ≤ types.length
  /-- The members of an enumeration are texts. -/
  texts : ∀ {d : Descriptor} {name doc types}, d ∈ r.graph → d.shape = .enumeration name doc types →
    ∀ t ∈ types, t.text?.isSome = true

variable {ctx : ExtractionContext} {r : Registry} {n : Node} {s : Signature} {t : TypeRef}
  {key : NodeKey} {shape : Shape} {keys : List NodeKey} {scope : Scope} {raw : Option String}
  {records : Nat → Prop} {asked : Node → Prop} {slot : Nat} {m : Member}

/-! ### What a shape mentions has a slot -/

theorem lt_of_slotIn (h : slotIn keys key = some slot) : slot < keys.length :=
  (List.getElem?_eq_some_iff.mp (getElem?_of_slotIn h)).1

theorem Denotes.lt_length (h : Denotes scope keys n raw t) (hslot : t.slot? = some slot) :
    slot < keys.length := by
  induction h with
  | keyword | literal | date | openScalar => cases hslot
  | array _ _ ih | arrayName _ _ _ _ ih => exact ih hslot
  | object h | union h | declared _ h =>
    cases hslot
    exact lt_of_slotIn h

theorem IsAlternative.lt_length (h : IsAlternative scope keys n t) (hslot : t.slot? = some slot) :
    slot < keys.length := by
  obtain ⟨inner, -, hdenotes⟩ := h
  exact hdenotes.lt_length hslot

theorem IsBag.lt_length {bag : Option Nat} (h : IsBag scope keys records s bag)
    (hslot : bag = some slot) : slot < keys.length ∧ records slot := by
  unfold IsBag at h
  split at h
  · rw [h] at hslot
    cases hslot
  · obtain ⟨slot', hdenotes, hrecord, rfl⟩ := h
    obtain rfl := Option.some.inj hslot
    exact ⟨hdenotes.lt_length rfl, hrecord⟩
  · exact h.elim

theorem IsMember.lt_length (h : IsMember scope keys records s m) (hslot : slot ∈ m.slots) :
    slot < keys.length := by
  rcases List.mem_append.mp hslot with htype | harguments
  · obtain ⟨inner, -, hdenotes, -⟩ := h.type
    exact hdenotes.lt_length (Option.mem_toList.mp htype)
  · exact (h.arguments.lt_length (Option.mem_toList.mp harguments)).1

/-- An element of the right list is related to one of the left list. -/
theorem exists_left_of_forall₂ {α β : Type} {R : α → β → Prop} {xs : List α} {ys : List β}
    (h : List.Forall₂ R xs ys) {y : β} (hy : y ∈ ys) : ∃ x ∈ xs, R x y :=
  exists_of_forall₂ h.flip hy

/-- The members of a record that completes a slot are what signatures stand for. -/
theorem Fills.exists_isMember (h : Fills ctx keys records asked key shape)
    (hm : m ∈ shape.members) : ∃ s, IsMember ctx.scope keys records s m := by
  cases h with
  | interface hd h =>
    obtain ⟨step, -, s, -, hs⟩ := exists_left_of_forall₂ h (mem_of_mem_lastOfEach hm)
    exact ⟨s, hs⟩
  | objectAlias hd hshape hobject h =>
    obtain ⟨s, -, hs⟩ := exists_left_of_forall₂ h hm
    exact ⟨s, hs⟩
  | object hasked h =>
    obtain ⟨s, -, hs⟩ := exists_left_of_forall₂ h hm
    exact ⟨s, hs⟩
  | enumeration | unionAlias | textAlias | union => cases hm

/-- The alternatives of a union that completes a slot are what types stand for. -/
theorem Fills.exists_isAlternative {name doc : Option String} {types : List TypeRef}
    (h : Fills ctx keys records asked key (.union name doc types)) (ht : t ∈ types) :
    ∃ n, IsAlternative ctx.scope keys n t := by
  cases h with
  | unionAlias _ _ _ _ h | union _ h =>
    obtain ⟨n, -, hn⟩ := exists_left_of_forall₂ h ht
    exact ⟨n, hn⟩

/-- The members of an enumeration that completes a slot are texts. -/
theorem Fills.isSome_text {name : String} {doc : Option String} {types : List TypeRef}
    (h : Fills ctx keys records asked key (.enumeration name doc types)) (ht : t ∈ types) :
    t.text?.isSome = true := by
  cases h with
  | enumeration hd h =>
    obtain ⟨e, -, text, -, rfl⟩ := exists_left_of_forall₂ h ht
    rfl
  | textAlias hd hshape htexts =>
    obtain ⟨v, hv, rfl⟩ := List.mem_map.mp ht
    obtain ⟨n, hn, hliteral⟩ := List.mem_filterMap.mp hv
    rw [isTextEnumeration, Bool.and_eq_true, List.all_eq_true] at htexts
    have htext := htexts.2 n hn
    rw [TypeExpr.text?, hliteral, Option.bind_some] at htext
    exact htext

theorem slot?_eq_none_of_isSome_text (h : t.text?.isSome = true) : t.slot? = none := by
  cases t with
  | primitive => rfl
  | array | untypedArray | date | node | foreign => cases h

/-- **Closure**, in one step: what completes a slot only mentions slots of the table. -/
theorem Fills.lt_length (h : Fills ctx keys records asked key shape) (hslot : slot ∈ shape.slots) :
    slot < keys.length := by
  have hmember : ∀ m ∈ shape.members, slot ∈ m.slots → slot < keys.length := by
    intro m hm hslot
    obtain ⟨s, hs⟩ := h.exists_isMember hm
    exact hs.lt_length hslot
  cases shape with
  | record name doc ms =>
    obtain ⟨m, hm, hslot⟩ := List.mem_flatMap.mp hslot
    exact hmember m hm hslot
  | inlineRecord location doc ms =>
    obtain ⟨m, hm, hslot⟩ := List.mem_flatMap.mp hslot
    exact hmember m hm hslot
  | union name doc types =>
    obtain ⟨t, ht, hslot⟩ := List.mem_filterMap.mp hslot
    obtain ⟨n, hn⟩ := h.exists_isAlternative ht
    exact hn.lt_length hslot
  | enumeration name doc types =>
    obtain ⟨t, ht, hslot⟩ := List.mem_filterMap.mp hslot
    rw [slot?_eq_none_of_isSome_text (h.isSome_text ht)] at hslot
    cases hslot

/-- A union that completes a slot has at least two alternatives. -/
theorem Fills.two_le_length {name doc : Option String} {types : List TypeRef}
    (h : Fills ctx keys records (Resolved ctx) key (.union name doc types)) : 2 ≤ types.length := by
  cases h with
  | unionAlias hd hshape hunion htexts h => rwa [← h.length_eq]
  | union hasked h =>
    rw [← h.length_eq]
    exact two_le_length_alternatives rfl (hasked.isBare rfl)

/-! ### What is resolved has an outcome -/

/-- The type of the only parameter stands for a slot. -/
theorem IsBag.exists_of_parameter {bag : Option Nat} {p : Parameter TypeExpr}
    (h : IsBag scope keys records s bag) (hp : parametersOf s.property = [p]) :
    ∃ slot, IsAlternative scope keys ⟨s.site.child 1, p.type⟩ (.node slot) := by
  rw [IsBag, hp] at h
  obtain ⟨slot, hslot, -⟩ := h
  exact ⟨slot, hslot⟩

theorem IsMember.exists_isAlternative (h : IsMember scope keys records s m) (hn : n ∈ parts s) :
    ∃ t, IsAlternative scope keys n t := by
  obtain rfl | ⟨p, hp, rfl⟩ := mem_parts.mp hn
  · obtain ⟨inner, hstrips, hdenotes, -⟩ := h.type
    exact ⟨m.type, inner, hstrips, hdenotes⟩
  · obtain ⟨slot, hslot⟩ := h.arguments.exists_of_parameter hp
    exact ⟨_, hslot⟩

theorem exists_isAlternative_of_forall₂ {ss : List Signature} {ms : List Member}
    (h : List.Forall₂ (IsMember scope keys records) ss ms) (hn : n ∈ ss.flatMap parts) :
    ∃ t, IsAlternative scope keys n t := by
  obtain ⟨s, hs, hn⟩ := List.mem_flatMap.mp hn
  obtain ⟨m, -, hm⟩ := exists_of_forall₂ h hs
  exact hm.exists_isAlternative hn

theorem hasSlot_of_mem_declarationNeeds {d : Declaration} (h : n ∈ declarationNeeds ctx d) :
    hasSlot ctx.scope d = true := by
  cases d with
  | interface | enumeration => rfl
  | typeAlias d =>
    rw [declarationNeeds] at h
    split at h
    · next hshape => exact hshape
    · cases h

/-- What a complete slot of a declaration needs stands for something. -/
theorem Fills.exists_of_mem_declarationNeeds (hscope : IsUnambiguous ctx.scope) {d : Declaration}
    (hd : d ∈ ctx.scope) (h : Fills ctx keys records asked (.declared d.name) shape)
    (hn : n ∈ declarationNeeds ctx d) : ∃ t, IsAlternative ctx.scope keys n t := by
  cases h.completesDeclaration hscope hd with
  | interface hall =>
    obtain ⟨step, hstep, hn⟩ := List.mem_flatMap.mp hn
    obtain ⟨m, -, s, rfl, hm⟩ := exists_of_forall₂ hall hstep
    exact hm.exists_isAlternative hn
  | enumeration => cases hn
  | objectAlias hshape hobject hall =>
    rw [declarationNeeds_object hshape hobject] at hn
    exact exists_isAlternative_of_forall₂ hall hn
  | unionAlias hshape hunion htexts hall =>
    rw [declarationNeeds_union hshape hunion htexts] at hn
    obtain ⟨t, -, ht⟩ := exists_of_forall₂ hall hn
    exact ⟨t, ht⟩
  | textAlias hshape htexts =>
    rw [declarationNeeds_texts hshape htexts] at hn
    cases hn

/-- What a complete slot of an inline type needs stands for something. -/
theorem Fills.exists_of_mem_needs (hscope : IsUnambiguous ctx.scope) {site : Site} {e : TypeExpr}
    (hn : IsAt ctx.scope ⟨site, e⟩)
    (h : Fills ctx keys records (Resolved ctx) (.inline site) shape) {m : Node}
    (hm : m ∈ needs ctx ⟨site, e⟩) : ∃ t, IsAlternative ctx.scope keys m t := by
  cases h.completesInline hscope hn with
  | @object ps position owner ms hall =>
    have hm : m ∈ (site.signatures owner ps).flatMap parts := by
      rw [flatMap_parts_signatures]
      exact hm
    exact exists_isAlternative_of_forall₂ hall hm
  | union hall =>
    obtain ⟨t, -, ht⟩ := exists_of_forall₂ hall hm
    exact ⟨t, ht⟩

/-- The slots of `r` are complete, and each declaration that has a slot is there. -/
structure IsComplete (ctx : ExtractionContext) (r : Registry) : Prop
    extends Inv ctx (Resolved ctx) (fun _ => False) r where
  declared : ∀ {d}, d ∈ ctx.scope → hasSlot ctx.scope d = true → .declared d.name ∈ r.keys

theorem IsComplete.fills (h : IsComplete ctx r) (hkey : key ∈ r.keys) :
    ∃ shape, Fills ctx r.keys (recordsOf r) (Resolved ctx) key shape := by
  obtain ⟨slot, hslot⟩ := List.mem_iff_getElem?.mp hkey
  obtain ⟨shape, -, hfills⟩ := h.filled hslot id
  exact ⟨shape, hfills⟩

/-- What a resolved type needs stands for something: for the elements of the array that the type
stands for, or for a part of its slot. -/
theorem IsComplete.exists_of_mem_needs (h : IsComplete ctx r) (hscope : IsUnambiguous ctx.scope)
    (hn : Resolved ctx n) (hdenotes : Denotes ctx.scope r.keys n raw t) {m : Node}
    (hm : m ∈ needs ctx n) : ∃ t', IsAlternative ctx.scope r.keys m t' ∧
      (t = .array t' ∨ n.expr.isObject = true ∨ n.expr.isUnion = true) := by
  have hinline : ∀ {site : Site} {e : TypeExpr} {slot : Nat}, Resolved ctx ⟨site, e⟩ →
      slotIn r.keys (.inline site) = some slot → ∀ m ∈ needs ctx ⟨site, e⟩,
      ∃ t', IsAlternative ctx.scope r.keys m t' := by
    intro site e slot hn hslot m hm
    obtain ⟨shape, hfills⟩ := h.fills (List.mem_of_getElem? (getElem?_of_slotIn hslot))
    exact hfills.exists_of_mem_needs hscope (hn.isAt hscope) hm
  cases hdenotes with
  | keyword | literal | date | openScalar => cases hm
  | declared => cases hm
  | array hstrips hdenotes =>
    rw [List.mem_singleton.mp hm]
    exact ⟨_, ⟨_, hstrips, hdenotes⟩, .inl rfl⟩
  | arrayName hfind hname hstrips hdenotes =>
    simp only [needs, hfind, hname] at hm
    rw [List.mem_singleton.mp hm]
    exact ⟨_, ⟨_, hstrips, hdenotes⟩, .inl rfl⟩
  | object hslot =>
    obtain ⟨t', ht'⟩ := hinline hn hslot _ hm
    exact ⟨t', ht', .inr (.inl rfl)⟩
  | union hslot =>
    obtain ⟨t', ht'⟩ := hinline hn hslot _ hm
    exact ⟨t', ht', .inr (.inr rfl)⟩

/-- What is resolved stands for something that has a property, if what declarations and inline types
need does. -/
theorem IsComplete.exists_denotes_of (h : IsComplete ctx r) (hscope : IsUnambiguous ctx.scope)
    {P : TypeRef → Prop}
    (hdeclared : ∀ {d m t}, d ∈ ctx.scope → m ∈ declarationNeeds ctx d →
      IsAlternative ctx.scope r.keys m t → P t)
    (hinline : ∀ {n m t}, Resolved ctx n → (n.expr.isObject = true ∨ n.expr.isUnion = true) →
      m ∈ needs ctx n → IsAlternative ctx.scope r.keys m t → P t)
    (harray : ∀ {t}, P (.array t) → P t) (hn : Resolved ctx n) :
    ∃ raw t, Denotes ctx.scope r.keys n raw t ∧ P t := by
  have hdone : ∀ {m : Node} {inner : Stripped} {t : TypeRef}, Strips ctx.scope m inner →
      IsAlternative ctx.scope r.keys m t → P t →
      ∃ raw t, Denotes ctx.scope r.keys inner.node raw t ∧ P t := by
    rintro m inner t hstrips ⟨inner', hstrips', hdenotes⟩ hP
    obtain rfl := hstrips.unique hstrips'
    exact ⟨inner.raw, t, hdenotes, hP⟩
  induction hn with
  | declared hd hm hstrips =>
    obtain ⟨shape, hfills⟩ := h.fills (h.declared hd (hasSlot_of_mem_declarationNeeds hm))
    obtain ⟨t, ht⟩ := hfills.exists_of_mem_declarationNeeds hscope hd hm
    exact hdone hstrips ht (hdeclared hd hm ht)
  | nested hn hm hstrips ih =>
    obtain ⟨raw, t, hdenotes, hP⟩ := ih
    obtain ⟨t', ht', rfl | hkey⟩ := h.exists_of_mem_needs hscope hn hdenotes hm
    · exact hdone hstrips ht' (harray hP)
    · exact hdone hstrips ht' (hinline hn hkey hm ht')

/-- **What is resolved stands for something**, once all slots are complete. -/
theorem IsComplete.exists_denotes (h : IsComplete ctx r) (hscope : IsUnambiguous ctx.scope)
    (hn : Resolved ctx n) : ∃ raw t, Denotes ctx.scope r.keys n raw t := by
  obtain ⟨raw, t, hdenotes, -⟩ := h.exists_denotes_of hscope (P := fun _ => True)
    (fun _ _ _ => trivial) (fun _ _ _ _ => trivial) id hn
  exact ⟨raw, t, hdenotes⟩

/-! ### The table -/

theorem isClosed_resolved : IsClosed ctx (Resolved ctx) where
  declared hd hm _ ht := .declared hd hm ht
  nested hn hm _ ht := .nested hn hm ht

/-- Nothing is asked of a table at a moment of which only the number of its keys is known. -/
theorem isClosed_true : IsClosed ctx fun _ => True where
  declared _ _ _ _ := trivial
  nested _ _ _ _ := trivial

theorem inv_of_length (h : r.keys.length = r.graph.length) :
    Inv ctx (fun _ => True) (fun _ => True) r where
  length := h
  filled _ hunder := absurd trivial hunder

theorem eq_of_slotIn (hnodup : keys.Nodup) (h : slotIn keys key = some slot) (i : Nat) :
    keys[i]? = some key ↔ i = slot := by
  have hslot := getElem?_of_slotIn h
  constructor
  · intro hi
    obtain ⟨hlt, hkey⟩ := List.getElem?_eq_some_iff.mp hi
    obtain ⟨hlt', hkey'⟩ := List.getElem?_eq_some_iff.mp hslot
    exact (List.Nodup.getElem_inj_iff hnodup).mp (hkey.trans hkey'.symm)
  · rintro rfl
    exact hslot

/-- What a type with a key stands for is the slot of the key. -/
theorem Denotes.slot_of_keyOf? (h : Denotes scope keys n raw t) (hkey : keyOf? scope n = some key) :
    ∃ slot, t = .node slot ∧ slotIn keys key = some slot := by
  cases h with
  | keyword | literal | array | arrayName => cases hkey
  | object h | union h =>
    obtain rfl := Option.some.inj hkey
    exact ⟨_, rfl, h⟩
  | declared hd h =>
    simp only [keyOf?, hd, Option.map_some] at hkey
    obtain rfl := Option.some.inj hkey
    exact ⟨_, rfl, h⟩
  | date hd | openScalar hd =>
    simp only [keyOf?, hd] at hkey
    cases hkey

theorem IsComplete.exists_fills (h : IsComplete ctx r) {slot : Nat} {d : Descriptor}
    (hd : r.graph[slot]? = some d) : d.id = slot + 1 ∧
      ∃ key, Fills ctx r.keys (recordsOf r) (Resolved ctx) key d.shape := by
  obtain ⟨hlt, -⟩ := List.getElem?_eq_some_iff.mp hd
  rw [← h.length] at hlt
  obtain ⟨shape, hshape, hfills⟩ := h.filled (List.getElem?_eq_getElem hlt) id
  obtain rfl := Option.some.inj (hshape.symm.trans hd)
  exact ⟨rfl, _, hfills⟩

theorem IsComplete.exists_fills_of_mem (h : IsComplete ctx r) {d : Descriptor}
    (hd : d ∈ r.graph) : ∃ key, Fills ctx r.keys (recordsOf r) (Resolved ctx) key d.shape := by
  obtain ⟨slot, hslot⟩ := List.mem_iff_getElem?.mp hd
  exact (h.exists_fills hslot).2

/-- **Complete tables** are what the table of a file should be. -/
theorem IsComplete.isTable (h : IsComplete ctx r) (hscope : IsUnambiguous ctx.scope)
    (hgrows : Grows ctx (Resolved ctx) Registry.empty r) : IsTable ctx r := by
  have hnodup : r.keys.Nodup := hgrows.nodup List.nodup_nil
  have hfresh : ∀ {key}, key ∈ r.keys → MayTake ctx (Resolved ctx) key := by
    intro key hkey
    rcases hgrows.fresh key hkey with hold | hmay
    · cases hold
    · exact hmay
  have hdenotes : ∀ {depth n raw owner before t after},
      before.keys.length = before.graph.length → after.keys <+: r.keys →
      Yields (resolve ctx depth n raw owner) before t after →
      Denotes ctx.scope r.keys n raw t := by
    intro depth n raw owner before t after hlength hprefix hyields
    exact ((resolve_isResolver isClosed_true depth) (inv_of_length hlength) trivial hyields).2.mono
      hprefix
  refine ⟨fun hd => (h.exists_fills hd).1, h.length, hnodup, ⟨hfresh, ?declared⟩,
    ⟨hfresh, ?inline⟩, ?filled, hdenotes, ?same, ?slotFor, ?closed, ?arguments, ?alternatives,
    ?texts⟩
  case declared =>
    rintro ⟨d, hd, rfl, hslot⟩
    exact h.declared hd hslot
  case inline =>
    rintro ⟨⟨site, e⟩, hn, rfl, hshape⟩
    obtain ⟨raw, t, hdenotes⟩ := h.exists_denotes hscope hn
    cases hdenotes with
    | object hslot | union hslot => exact List.mem_of_getElem? (getElem?_of_slotIn hslot)
    | _ => rcases hshape with hshape | hshape <;> cases hshape
  case filled =>
    intro slot key hkey
    obtain ⟨shape, hshape, hfills⟩ := h.filled hkey id
    exact ⟨_, hshape, hfills⟩
  case same =>
    intro depth n raw owner before t after key hlength hprefix hyields hkey
    obtain ⟨slot, ht, hslot⟩ := (hdenotes hlength hprefix hyields).slot_of_keyOf? hkey
    exact ⟨slot, ht, eq_of_slotIn hnodup hslot⟩
  case slotFor =>
    intro depth d before slot after hd hlength hprefix hyields
    obtain ⟨-, hslot, -⟩ := slotFor_keeps isClosed_true depth (inv_of_length hlength) hd hyields
    exact eq_of_slotIn hnodup (slotIn_of_isPrefix hprefix (hslot slot rfl))
  case closed =>
    intro i j hi hreach
    induction hreach with
    | refl => exact hi
    | tail _ hleads _ =>
      obtain ⟨d, hd, hslot⟩ := hleads
      obtain ⟨key, hfills⟩ := (h.exists_fills hd).2
      rw [← h.length]
      exact hfills.lt_length hslot
  case arguments =>
    intro d m slot hd hm hslot
    obtain ⟨key, hfills⟩ := h.exists_fills_of_mem hd
    obtain ⟨s, hs⟩ := hfills.exists_isMember hm
    exact recordsOf_iff.mp (hs.arguments.lt_length hslot).2
  case alternatives =>
    intro d name doc types hd hshape
    obtain ⟨key, hfills⟩ := h.exists_fills_of_mem hd
    rw [hshape] at hfills
    exact hfills.two_le_length
  case texts =>
    intro d name doc types hd hshape t ht
    obtain ⟨key, hfills⟩ := h.exists_fills_of_mem hd
    rw [hshape] at hfills
    exact hfills.isSome_text ht

theorem isUnambiguous_of_duplicate?_eq_none {seen : List String} {ds : List Declaration}
    (h : duplicate? seen ds = none) : IsUnambiguous ds ∧ ∀ d ∈ ds, d.name ∉ seen := by
  induction ds generalizing seen with
  | nil => exact ⟨fun d hd => absurd hd List.not_mem_nil, fun d hd => absurd hd List.not_mem_nil⟩
  | cons d rest ih =>
    rw [duplicate?] at h
    split at h
    · cases h
    · next hseen =>
      have hseen : d.name ∉ seen := by simpa using hseen
      obtain ⟨hrest, hnew⟩ := ih h
      refine ⟨fun e he => ?_, fun e he => ?_⟩
      · rcases List.mem_cons.mp he with rfl | he
        · simp [Scope.find?]
        · have hne : d.name ≠ e.name := fun heq => hnew e he (heq ▸ List.mem_cons_self ..)
          have hfind := hrest e he
          rw [Scope.find?] at hfind
          rw [Scope.find?, List.find?_cons_of_neg (by simpa using hne), hfind]
      · rcases List.mem_cons.mp he with rfl | he
        · exact hseen
        · exact fun hmem => hnew e he (List.mem_cons_of_mem _ hmem)

theorem inv_empty : Inv ctx asked U Registry.empty where
  length := rfl
  filled hkey _ := by cases hkey

/-- Resolves all declarations of a file, with at most the given number of nested resolutions. -/
def runWithin (depth : Nat) (unionsAsEnums : Bool) (u : SourceUnit) : Extract Unit :=
  match duplicate? [] u.declarations with
  | some d => failAt d.position d.name (.duplicate d.name)
  | none => u.declarations.forM (declare ⟨u.declarations, unionsAsEnums⟩
      (resolve ⟨u.declarations, unionsAsEnums⟩ depth))

/-- The descriptors of a file, found with at most the given number of nested resolutions. -/
def extractWithin (depth : Nat) (unionsAsEnums : Bool) (u : SourceUnit) :
    Except ExtractionError Graph :=
  match (runWithin depth unionsAsEnums u).run Registry.empty with
  | (.ok _, r) => .ok r.graph
  | (.error e, _) => .error e

section Run

variable {unionsAsEnums : Bool} {file : SourceUnit} {depth : Nat} {u : Unit} {g : Graph}
  {e : ExtractionError}

theorem run_eq_runWithin :
    run unionsAsEnums file = runWithin (depthBound file) unionsAsEnums file := rfl

theorem extract_eq_extractWithin :
    extract unionsAsEnums file = extractWithin (depthBound file) unionsAsEnums file := by
  rw [extract, extraction, extractWithin, run_eq_runWithin]
  rcases (runWithin (depthBound file) unionsAsEnums file).run Registry.empty with ⟨(e | u), r⟩ <;> rfl

theorem extractWithin_eq_ok_iff : extractWithin depth unionsAsEnums file = .ok g ↔
    ∃ r, Yields (runWithin depth unionsAsEnums file) Registry.empty ⟨⟩ r ∧ r.graph = g := by
  rw [extractWithin]
  constructor
  · intro h
    split at h
    · next u r hrun => exact ⟨r, hrun, Except.ok.inj h⟩
    · cases h
  · rintro ⟨r, hrun, rfl⟩
    rw [show (runWithin depth unionsAsEnums file).run Registry.empty = (.ok ⟨⟩, r) from hrun]

theorem extractWithin_eq_error_iff : extractWithin depth unionsAsEnums file = .error e ↔
    Fails (runWithin depth unionsAsEnums file) Registry.empty e := by
  rw [extractWithin]
  constructor
  · intro h
    split at h
    · cases h
    · next e r hrun =>
      cases h
      exact ⟨r, hrun⟩
  · rintro ⟨r, hrun⟩
    rw [show (runWithin depth unionsAsEnums file).run Registry.empty = (.error e, r) from hrun]

/-- When the run is over, all slots are complete. -/
theorem isComplete_of_runWithin
    (h : Yields (runWithin depth unionsAsEnums file) Registry.empty u r) :
    IsUnambiguous file.declarations ∧ IsComplete ⟨file.declarations, unionsAsEnums⟩ r ∧
      Grows ⟨file.declarations, unionsAsEnums⟩ (Resolved ⟨file.declarations, unionsAsEnums⟩)
        Registry.empty r := by
  unfold runWithin at h
  split at h
  · exact absurd h yields_failAt
  · next hnone =>
    obtain ⟨hscope, -⟩ := isUnambiguous_of_duplicate?_eq_none hnone
    refine ⟨hscope, ?_⟩
    obtain ⟨hinv, hgrows, hall⟩ := Yields.forM
      (Inv ⟨file.declarations, unionsAsEnums⟩ (Resolved _) (fun _ => False))
      (Grows ⟨file.declarations, unionsAsEnums⟩ (Resolved _))
      (fun r d => hasSlot file.declarations d = true → .declared d.name ∈ r.keys)
      .refl .trans (fun hgrows hd hslot => hgrows.keys.subset (hd hslot))
      (fun d hd a v b ha hdeclare => by
        obtain ⟨found, hfound⟩ := exists_yields_slotFor hdeclare
        obtain ⟨hkeeps, hsome, hnone⟩ := slotFor_keeps isClosed_resolved _ ha hd hfound
        refine ⟨hkeeps.inv, hkeeps.grows, fun hslot => ?_⟩
        cases found with
        | some slot => exact List.mem_of_getElem? (getElem?_of_slotIn (hsome slot rfl))
        | none =>
          have hnone := hnone rfl
          rw [hslot] at hnone
          cases hnone) h inv_empty
    exact ⟨⟨hinv, fun hd hslot => hall _ hd hslot⟩, hgrows⟩

theorem isComplete_of_run (h : Yields (run unionsAsEnums file) Registry.empty u r) :
    IsUnambiguous file.declarations ∧ IsComplete ⟨file.declarations, unionsAsEnums⟩ r ∧
      Grows ⟨file.declarations, unionsAsEnums⟩ (Resolved ⟨file.declarations, unionsAsEnums⟩)
        Registry.empty r :=
  isComplete_of_runWithin h

theorem yields_of_extract (h : extract unionsAsEnums file = .ok g) :
    ∃ r, Yields (run unionsAsEnums file) Registry.empty ⟨⟩ r ∧ r.graph = g :=
  extractWithin_eq_ok_iff.mp (extract_eq_extractWithin ▸ h)

end Run

/-- **The table of a file.** If extraction succeeds, each declaration that names a shape and each
inline type that is resolved has exactly one descriptor, which is complete, and which everyone got
who asked for it at any moment; descriptors are numbered in order, and mention each other only. -/
theorem isTable_of_extract {unionsAsEnums : Bool} {file : SourceUnit} {g : Graph}
    (h : extract unionsAsEnums file = .ok g) :
    ∃ r, Yields (run unionsAsEnums file) Registry.empty ⟨⟩ r ∧ r.graph = g ∧
      IsTable ⟨file.declarations, unionsAsEnums⟩ r := by
  obtain ⟨r, hrun, rfl⟩ := yields_of_extract h
  obtain ⟨hscope, hcomplete, hgrows⟩ := isComplete_of_run hrun
  exact ⟨r, hrun, rfl, hcomplete.isTable hscope hgrows⟩

/-- A type that refers to itself, with a method, an inline type and a named union. -/
def sampleFile : SourceUnit where
  imports := []
  declarations := [
    .interface ⟨"Tree", [], [
      ⟨"parent", .reference "Tree" [] ⟨2, 12⟩, true, false, none, ⟨2, 3⟩⟩,
      ⟨"children", .function
        [⟨"page", .object [⟨"first", .reference "Int" [] ⟨3, 27⟩, false, false, none, ⟨3, 20⟩⟩]
          ⟨3, 18⟩, false⟩]
        (.array (.reference "Tree" [] ⟨3, 36⟩)), false, false, none, ⟨3, 3⟩⟩,
      ⟨"kind", .reference "Kind" [] ⟨4, 9⟩, false, false, none, ⟨4, 3⟩⟩], none, ⟨1, 11⟩⟩,
    .typeAlias ⟨"Kind", .union [.literal (.str "leaf"), .literal (.str "inner")], none, ⟨6, 6⟩⟩]

/-- The table of the sample. -/
def sampleTable : Graph := [
  ⟨1, .record "Tree" none [
    ⟨"parent", .node 0, none, true, false, none, none⟩,
    ⟨"children", .array (.node 0), none, false, false, none, some 1⟩,
    ⟨"kind", .node 2, none, false, false, none, none⟩]⟩,
  ⟨2, .inlineRecord "Tree.children(page), line 3" none [
    ⟨"first", .primitive ⟨"number", "Int", none⟩, none, false, false, none, none⟩]⟩,
  ⟨3, .union (some "Kind") none [
    .primitive ⟨"string", "'leaf'", some (.str "leaf")⟩,
    .primitive ⟨"string", "'inner'", some (.str "inner")⟩]⟩]

theorem isTable_of_extract_sampleFile : extract false sampleFile = .ok sampleTable ∧
    ∃ r, Yields (run false sampleFile) Registry.empty ⟨⟩ r ∧ r.graph = sampleTable ∧
      IsTable ⟨sampleFile.declarations, false⟩ r := by
  have h : extract false sampleFile = .ok sampleTable := by cbv
  exact ⟨h, isTable_of_extract h⟩

end Extraction

end DeclaredSchema
