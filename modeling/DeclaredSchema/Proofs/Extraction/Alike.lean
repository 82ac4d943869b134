import DeclaredSchema.Proofs.Descriptor.Alike
import DeclaredSchema.Proofs.Extraction.Widening
import DeclaredSchema.Proofs.Synthesis.Alike

/-!
# Tables of the same file

What stands in the slot of a key is determined by the key. Two tables of a file may have taken their
slots in different orders, and from different places, but slots with the same key hold the same,
up to the slots that are mentioned there. A table of a wider file has more slots, too, which nothing
in the slots of the file mentions.

## Main definitions

* `SameKey` — two slots have the same key

## Main results

* `Denotes.alike` — a type stands for the same in both tables
* `Fills.alike` — what completes a slot is the same in both tables
* `IsTable.alike`, `IsTable.rootsAlike` — the tables are alike, and so are their roots
-/

namespace DeclaredSchema

namespace Extraction

/-- The two slots have the same key, the one in `keys` and the other in `keys'`. -/
def SameKey (keys keys' : List NodeKey) (slot slot' : Nat) : Prop :=
  ∃ key, slotIn keys key = some slot ∧ slotIn keys' key = some slot'

variable {ctx ctx' : ExtractionContext} {scope : Scope} {keys keys' : List NodeKey}
  {records records' : Nat → Prop} {n : Node} {raw : Option String} {t t' : TypeRef} {s : Signature}
  {m m' : Member} {key : NodeKey} {shape shape' : Shape} {asked : Node → Prop} {r r' : Registry}

/-! ### Types and members -/

/-- **A type stands for the same** under other keys. -/
theorem Denotes.alike (h : Denotes scope keys n raw t) (h' : Denotes scope keys' n raw t') :
    t.Alike (SameKey keys keys') t' := by
  induction h generalizing t' with
  | keyword => cases h'; exact .primitive
  | literal => cases h'; exact .primitive
  | array ht _ ih =>
    cases h' with
    | array ht' h' =>
      obtain rfl := ht.unique ht'
      exact .array (ih h')
  | object h =>
    cases h' with
    | object h' => exact .node ⟨_, h, h'⟩
  | union h =>
    cases h' with
    | union h' => exact .node ⟨_, h, h'⟩
  | declared hd h =>
    cases h' with
    | declared hd' h' => exact .node ⟨_, h, h'⟩
    | date hd' | openScalar hd' => cases hd.symm.trans hd'
  | arrayName hd hname ht _ ih =>
    cases h' with
    | arrayName hd' hname' ht' h' =>
      obtain rfl := ht.unique ht'
      exact .array (ih h')
  | date hd =>
    cases h' with
    | declared hd' => cases hd.symm.trans hd'
    | date => exact .date
    | openScalar _ hdate => exact absurd rfl hdate
  | openScalar hd hdate =>
    cases h' with
    | declared hd' => cases hd.symm.trans hd'
    | date => exact absurd rfl hdate
    | openScalar => exact .primitive

theorem IsAlternative.alike (h : IsAlternative scope keys n t) (h' : IsAlternative scope keys' n t') :
    t.Alike (SameKey keys keys') t' := by
  obtain ⟨inner, hstrips, ht⟩ := h
  obtain ⟨inner', hstrips', ht'⟩ := h'
  obtain rfl := hstrips.unique hstrips'
  exact ht.alike ht'

theorem IsBag.alike {bag bag' : Option Nat} (h : IsBag scope keys records s bag)
    (h' : IsBag scope keys' records' s bag') : Option.Rel (SameKey keys keys') bag bag' := by
  unfold IsBag at h h'
  generalize parametersOf s.property = parameters at h h'
  match parameters with
  | [] =>
    obtain rfl := h
    obtain rfl := h'
    exact .none
  | [p] =>
    obtain ⟨slot, hslot, -, rfl⟩ := h
    obtain ⟨slot', hslot', -, rfl⟩ := h'
    cases hslot.alike hslot' with
    | node hsame => exact .some hsame
  | _ :: _ :: _ => exact h.elim

theorem IsMember.alike (h : IsMember scope keys records s m) (h' : IsMember scope keys' records' s m') :
    m.Alike (SameKey keys keys') m' := by
  obtain ⟨inner, hstrips, ht, hnullable⟩ := h.type
  obtain ⟨inner', hstrips', ht', hnullable'⟩ := h'.type
  obtain rfl := hstrips.unique hstrips'
  exact ⟨h.name.trans h'.name.symm, ht.alike ht', h.doc.trans h'.doc.symm,
    h.optional.trans h'.optional.symm, hnullable.trans hnullable'.symm,
    h.default.trans h'.default.symm, h.arguments.alike h'.arguments⟩

/-- What the same elements are related to is related. -/
theorem forall₂_of_left {α β γ : Type} {A : α → β → Prop} {B : α → γ → Prop} {C : β → γ → Prop}
    (hC : ∀ x y z, A x y → B x z → C y z) {xs : List α} {ys : List β} {zs : List γ}
    (h : List.Forall₂ A xs ys) (h' : List.Forall₂ B xs zs) : List.Forall₂ C ys zs := by
  induction h generalizing zs with
  | nil =>
    cases h'
    exact .nil
  | cons hx _ ih =>
    cases h' with
    | cons hx' h' => exact .cons (hC _ _ _ hx hx') (ih h')

/-! ### Slots -/

/-- **What completes a slot** is the same under other keys. -/
theorem Fills.alike (hscope : IsUnambiguous ctx.scope)
    (h : Fills ctx keys records (Resolved ctx) key shape)
    (h' : Fills ctx keys' records' (Resolved ctx) key shape') :
    shape.Alike (SameKey keys keys') shape' := by
  cases h with
  | interface hd hall =>
    cases h'.completesDeclaration hscope hd with
    | interface hall' =>
      refine .record (forall₂_lastOfEach (fun _ _ hm => hm.name) (forall₂_of_left ?_ hall hall'))
      rintro _ m m' ⟨s, rfl, hm⟩ ⟨s', hs', hm'⟩
      cases hs'
      exact hm.alike hm'
  | enumeration hd hall =>
    cases h'.completesDeclaration hscope hd with
    | enumeration hall' =>
      refine .enumeration (forall₂_of_left ?_ hall hall')
      rintro e _ _ ⟨text, hvalue, rfl⟩ ⟨text', hvalue', rfl⟩
      cases hvalue.symm.trans hvalue'
      exact .primitive
  | objectAlias hd hshape hobject hall =>
    obtain ⟨ms, hall', rfl⟩ := (h'.completesDeclaration hscope hd).of_object hobject
    exact .record (forall₂_of_left (fun _ _ _ hm hm' => hm.alike hm') hall hall')
  | unionAlias hd hshape hunion htexts hall =>
    obtain ⟨types, hall', rfl⟩ := (h'.completesDeclaration hscope hd).of_union hunion htexts
    exact .union (forall₂_of_left (fun _ _ _ ht ht' => ht.alike ht') hall hall')
  | textAlias hd hshape htexts =>
    obtain rfl := (h'.completesDeclaration hscope hd).of_texts htexts
    refine .enumeration ?_
    rw [List.forall₂_map_left_iff, List.forall₂_map_right_iff]
    exact List.forall₂_same.mpr fun _ _ => .primitive
  | object hn hall =>
    cases h'.completesInline hscope (hn.isAt hscope) with
    | object hall' =>
      -- the owner of a signature is a matter of messages only
      rw [Site.signatures, List.forall₂_map_left_iff] at hall hall'
      refine .inlineRecord (forall₂_of_left (fun _ _ _ hm hm' => ?_) hall hall')
      exact hm.alike ⟨hm'.name, hm'.doc, hm'.optional, hm'.type, hm'.default, hm'.arguments⟩
  | union hn hall =>
    cases h'.completesInline hscope (hn.isAt hscope) with
    | union hall' =>
      exact .union (forall₂_of_left (fun _ _ _ ht ht' => ht.alike ht') hall hall')

/-! ### Tables -/

theorem eq_of_slotIn_eq {key' : NodeKey} {slot : Nat} (h : slotIn keys key = some slot)
    (h' : slotIn keys key' = some slot) : key = key' :=
  Option.some.inj ((getElem?_of_slotIn h).symm.trans (getElem?_of_slotIn h'))

/-- **Tables of a file** and of a wider one hold the same in the slots with the same keys. -/
theorem IsTable.alike (hwidens : WidensTo ctx ctx') (hscope' : IsUnambiguous ctx'.scope)
    (h : IsTable ctx r) (h' : IsTable ctx' r') :
    Graph.Alike (SameKey r.keys r'.keys) r.graph r'.graph where
  shapes := by
    rintro slot slot' ⟨key, hslot, hslot'⟩
    obtain ⟨d, hd, hfills⟩ := h.filled (getElem?_of_slotIn hslot)
    obtain ⟨d', hd', hfills'⟩ := h'.filled (getElem?_of_slotIn hslot')
    exact ⟨d, d', hd, hd', (hwidens.fills hfills).alike hscope' hfills'⟩
  right_unique := by
    rintro slot slot' other ⟨key, hslot, hslot'⟩ ⟨key', hother, hother'⟩
    obtain rfl := eq_of_slotIn_eq hslot hother
    exact Option.some.inj (hslot'.symm.trans hother')
  left_unique := by
    rintro slot slot' other ⟨key, hslot, hslot'⟩ ⟨key', hother, hother'⟩
    obtain rfl := eq_of_slotIn_eq hslot' hother'
    exact Option.some.inj (hslot.symm.trans hother)

/-- A named record is in the slot of its name. -/
theorem IsTable.key_of_isNamed (h : IsTable ctx r) {name : String} {slot : Nat}
    (hnamed : Synthesis.IsNamed r.graph name slot) : slotIn r.keys (.declared name) = some slot := by
  obtain ⟨doc, ms, hs⟩ := hnamed
  obtain ⟨d, hd, hshape⟩ := Option.map_eq_some_iff.mp hs
  have hlt : slot < r.keys.length := h.length ▸ (List.getElem?_eq_some_iff.mp hd).1
  obtain ⟨d', hd', hfills⟩ := h.filled (List.getElem?_eq_getElem hlt)
  obtain rfl := Option.some.inj (hd.symm.trans hd')
  rw [hshape] at hfills
  generalize hkey : r.keys[slot] = key at hfills
  have hdeclared : key = .declared name := by
    cases hfills <;> rfl
  obtain ⟨found, hfound⟩ := exists_slotIn_of_mem (hkey ▸ List.getElem_mem hlt : key ∈ r.keys)
  have heq := (eq_of_slotIn h.nodup hfound slot).mp (by rw [List.getElem?_eq_getElem hlt, hkey])
  rw [← hdeclared, hfound, heq]

theorem IsTable.rootsAlike (hwidens : WidensTo ctx ctx') (h : IsTable ctx r) (h' : IsTable ctx' r')
    (hroots : ∀ d ∈ ctx'.scope, d.name = Synthesis.queryRoot ∨ d.name = Synthesis.mutationRoot →
      d ∈ ctx.scope) : Synthesis.RootsAlike (SameKey r.keys r'.keys) r.graph r'.graph where
  left := by
    intro name slot hname hnamed
    have hslot := h.key_of_isNamed hnamed
    obtain ⟨d, hd, hdname, hhas⟩ := h.declared.mp (List.mem_of_getElem? (getElem?_of_slotIn hslot))
    obtain ⟨slot', hslot'⟩ := exists_slotIn_of_mem
      (h'.declared.mpr ⟨d, hwidens.mem hd, hdname, (hwidens.hasSlot_eq hd).trans hhas⟩)
    exact ⟨slot', _, hslot, hslot'⟩
  right := by
    intro name slot' hname hnamed
    have hslot' := h'.key_of_isNamed hnamed
    obtain ⟨d, hd, hdname, hhas⟩ := h'.declared.mp (List.mem_of_getElem? (getElem?_of_slotIn hslot'))
    have hd := hroots d hd (hdname ▸ hname)
    obtain ⟨slot, hslot⟩ := exists_slotIn_of_mem
      (h.declared.mpr ⟨d, hd, hdname, (hwidens.hasSlot_eq hd).symm.trans hhas⟩)
    exact ⟨slot, _, hslot, hslot'⟩
  left_unique hnamed hother :=
    Option.some.inj ((h.key_of_isNamed hnamed).symm.trans (h.key_of_isNamed hother))
  right_unique hnamed hother :=
    Option.some.inj ((h'.key_of_isNamed hnamed).symm.trans (h'.key_of_isNamed hother))

end Extraction

end DeclaredSchema
