import DeclaredSchema.Proofs.Extraction.Meaning

/-!
# What holds while declarations are extracted

A resolution starts from a table in which some slots are underway: they have their keys, and nothing
is known of their shapes. Every other slot is filled, by what its key stands for under the keys of
the table. A resolution takes new slots, fills them, and leaves all earlier ones as they were, those
underway too, since each slot is changed only by the step that took it.

## Main definitions

* `Inv` — the invariant
* `Grows` — a table has gone on from another one

## Main results

* `Inv.grow`, `Inv.add`, `Inv.change`, `Inv.finish` — the steps that change a table keep the
  invariant
-/

namespace DeclaredSchema

namespace Extraction

/-- The slots that hold records. -/
def recordsOf (r : Registry) (slot : Nat) : Prop := r.graph.isRecord (.node slot) = true

/-- Whether a declaration gets a slot. -/
def hasSlot (scope : Scope) : Declaration → Bool
  | .interface _ | .enumeration _ => true
  | .typeAlias d => namesShape scope d

/-- The keys for which slots are taken. -/
def MayTake (ctx : ExtractionContext) (asked : Node → Prop) : NodeKey → Prop
  | .declared name => ∃ d ∈ ctx.scope, d.name = name ∧ hasSlot ctx.scope d = true
  | .inline s => ∃ n, asked n ∧ n.site = s ∧ (n.expr.isObject = true ∨ n.expr.isUnion = true)

/-- What holds of a table while the slots of `U` are underway. -/
structure Inv (ctx : ExtractionContext) (asked : Node → Prop) (U : Nat → Prop) (r : Registry) :
    Prop where
  length : r.keys.length = r.graph.length
  filled : ∀ {slot key}, r.keys[slot]? = some key → ¬ U slot →
    ∃ shape, r.graph[slot]? = some ⟨slot + 1, shape⟩ ∧
      Fills ctx r.keys (recordsOf r) asked key shape

/-- `r'` has gone on from `r`: no slot of `r` has changed, and no key is taken twice. -/
structure Grows (ctx : ExtractionContext) (asked : Node → Prop) (r r' : Registry) : Prop where
  keys : r.keys <+: r'.keys
  graph : r.graph <+: r'.graph
  fresh : ∀ key ∈ r'.keys, key ∈ r.keys ∨ MayTake ctx asked key
  nodup : r.keys.Nodup → r'.keys.Nodup

variable {ctx : ExtractionContext} {asked : Node → Prop} {U : Nat → Prop} {r r' : Registry}
  {slot : Nat} {key : NodeKey} {shape : Shape}

/-! ### Going on -/

theorem recordsOf_iff :
    recordsOf r slot ↔ ∃ d, r.graph[slot]? = some d ∧ d.shape.members?.isSome = true := by
  rw [recordsOf, Graph.isRecord, Graph.shape?, Option.isSome_bind, Option.any_map,
    Option.any_eq_true]

theorem getElem?_of_isPrefix {α : Type} {xs ys : List α} (h : xs <+: ys) {i : Nat} {x : α}
    (hx : xs[i]? = some x) : ys[i]? = some x := by
  obtain ⟨more, rfl⟩ := h
  obtain ⟨hi, -⟩ := List.getElem?_eq_some_iff.mp hx
  rwa [List.getElem?_append_left hi]

namespace Grows

theorem refl (r : Registry) : Grows ctx asked r r :=
  ⟨List.prefix_refl _, List.prefix_refl _, fun _ h => .inl h, id⟩

theorem trans {a b c : Registry} (h : Grows ctx asked a b) (h' : Grows ctx asked b c) :
    Grows ctx asked a c where
  keys := h.keys.trans h'.keys
  graph := h.graph.trans h'.graph
  fresh key hkey := by
    rcases h'.fresh key hkey with hb | hmay
    · exact h.fresh key hb
    · exact .inr hmay
  nodup hnodup := h'.nodup (h.nodup hnodup)

theorem records (h : Grows ctx asked r r') : recordsOf r slot → recordsOf r' slot := by
  rw [recordsOf_iff, recordsOf_iff]
  rintro ⟨d, hd, hmembers⟩
  exact ⟨d, getElem?_of_isPrefix h.graph hd, hmembers⟩

end Grows

/-! ### Taking a slot -/

theorem slotIn_eq_none_iff {keys : List NodeKey} : slotIn keys key = none ↔ key ∉ keys := by
  rw [slotIn, List.findIdx?_eq_none_iff]
  constructor
  · intro h hmem
    have := h key hmem
    simp at this
  · rintro h x hx
    simp only [decide_eq_false_iff_not]
    rintro rfl
    exact h hx

theorem exists_slotIn_of_mem {keys : List NodeKey} (h : key ∈ keys) :
    ∃ slot, slotIn keys key = some slot := by
  cases hslot : slotIn keys key with
  | none => exact absurd h (slotIn_eq_none_iff.mp hslot)
  | some slot => exact ⟨slot, rfl⟩

theorem getElem?_of_slotIn {keys : List NodeKey} (h : slotIn keys key = some slot) :
    keys[slot]? = some key := by
  rw [slotIn, List.findIdx?_eq_some_iff_getElem] at h
  obtain ⟨hlt, hkey, -⟩ := h
  rw [List.getElem?_eq_getElem hlt]
  simpa using hkey

theorem slotIn_concat {keys : List NodeKey} (h : key ∉ keys) :
    slotIn (keys ++ [key]) key = some keys.length := by
  rw [slotIn, List.findIdx?_append, ← slotIn, slotIn_eq_none_iff.mpr h]
  simp

theorem Grows.add (hkey : slotIn r.keys key = none) (hmay : MayTake ctx asked key) :
    Grows ctx asked r (r.add key shape) where
  keys := List.prefix_append _ _
  graph := List.prefix_append _ _
  fresh key' h := by
    rcases List.mem_append.mp h with h | h
    · exact .inl h
    · exact .inr (List.mem_singleton.mp h ▸ hmay)
  nodup hnodup := by
    rw [Registry.keys_add, List.nodup_append]
    refine ⟨hnodup, List.nodup_cons.mpr ⟨List.not_mem_nil, List.nodup_nil⟩, fun a ha b hb => ?_⟩
    rintro rfl
    exact slotIn_eq_none_iff.mp hkey (List.mem_singleton.mp hb ▸ ha)

theorem getElem?_graph_add : (r.add key shape).graph[r.graph.length]? =
    some ⟨r.graph.length + 1, shape⟩ := by
  simp [Registry.add]

/-- The slots that are underway, with one more. -/
def also (U : Nat → Prop) (slot : Nat) (slot' : Nat) : Prop := U slot' ∨ slot' = slot

namespace Inv

/-- The invariant goes on to a table in which all new slots are underway or filled. -/
theorem grow {U' : Nat → Prop} (h : Inv ctx asked U r) (hgrows : Grows ctx asked r r')
    (hU : ∀ slot, U slot → U' slot) (hlength : r'.keys.length = r'.graph.length)
    (hnew : ∀ {slot key}, r.keys.length ≤ slot → r'.keys[slot]? = some key → ¬ U' slot →
      ∃ shape, r'.graph[slot]? = some ⟨slot + 1, shape⟩ ∧
        Fills ctx r'.keys (recordsOf r') asked key shape) : Inv ctx asked U' r' where
  length := hlength
  filled {slot key} hkey hunder := by
    rcases Nat.lt_or_ge slot r.keys.length with hlt | hge
    · have hold : r.keys[slot]? = some key := by
        obtain ⟨more, hmore⟩ := hgrows.keys
        rwa [← hmore, List.getElem?_append_left hlt] at hkey
      obtain ⟨shape, hshape, hfills⟩ := h.filled hold fun hu => hunder (hU slot hu)
      exact ⟨shape, getElem?_of_isPrefix hgrows.graph hshape,
        hfills.mono hgrows.keys fun _ => hgrows.records⟩
    · exact hnew hge hkey hunder

theorem length_add (h : Inv ctx asked U r) :
    (r.add key shape).keys.length = (r.add key shape).graph.length := by
  rw [Registry.keys_add, List.length_append, Registry.length_graph_add, h.length,
    List.length_singleton]

/-- The only new slot is the one behind all others. -/
theorem eq_of_getElem?_add (h : Inv ctx asked U r) {key' : NodeKey} (hge : r.keys.length ≤ slot)
    (hkey : (r.add key shape).keys[slot]? = some key') : slot = r.graph.length ∧ key' = key := by
  rw [Registry.keys_add, List.getElem?_append_right hge, List.getElem?_singleton] at hkey
  split at hkey
  · next hzero =>
    refine ⟨?_, (Option.some.inj hkey).symm⟩
    rw [← h.length]
    omega
  · cases hkey

/-- A slot that is taken is underway. -/
theorem add (h : Inv ctx asked U r) (hkey : slotIn r.keys key = none)
    (hmay : MayTake ctx asked key) :
    Inv ctx asked (also U r.graph.length) (r.add key shape) := by
  refine h.grow (.add hkey hmay) (fun _ => .inl) h.length_add ?_
  intro slot key' hge hkey' hunder
  exact absurd (.inr (h.eq_of_getElem?_add hge hkey').1) hunder

/-- A slot that is complete when it is taken is not underway. -/
theorem addComplete (h : Inv ctx asked U r) (hkey : slotIn r.keys key = none)
    (hmay : MayTake ctx asked key)
    (hfills : Fills ctx (r.add key shape).keys (recordsOf (r.add key shape)) asked key shape) :
    Inv ctx asked U (r.add key shape) := by
  refine h.grow (.add hkey hmay) (fun _ => id) h.length_add ?_
  intro slot key' hge hkey' _
  obtain ⟨rfl, rfl⟩ := h.eq_of_getElem?_add hge hkey'
  exact ⟨shape, getElem?_graph_add, hfills⟩

end Inv

theorem getElem?_keys_add (h : r.keys.length = r.graph.length) :
    (r.add key shape).keys[r.graph.length]? = some key := by
  rw [← h]
  simp

/-! ### Changing a slot -/

variable {f : Shape → Shape}

theorem getElem?_graph_update (i : Nat) :
    (r.update slot f).graph[i]? =
      if slot = i then r.graph[i]?.map fun d => { d with shape := f d.shape } else r.graph[i]? := by
  rw [Registry.update, Graph.update, List.getElem?_modify]
  by_cases h : slot = i <;> simp [h]

theorem Grows.update (h : Grows ctx asked r r') (hslot : r.graph.length ≤ slot) :
    Grows ctx asked r (r'.update slot f) where
  keys := h.keys
  graph := by
    obtain ⟨more, hmore⟩ := h.graph
    refine List.prefix_iff_getElem?.mpr fun i hi => ?_
    rw [getElem?_graph_update, if_neg (by omega), ← hmore, List.getElem?_append_left hi,
      List.getElem?_eq_getElem hi]
  fresh := h.fresh
  nodup := h.nodup

/-- A change that leaves records records. -/
def KeepsRecords (f : Shape → Shape) : Prop :=
  ∀ s, s.members?.isSome = true → (f s).members?.isSome = true

theorem keepsRecords_withMembers (ms : List Member) : KeepsRecords (Shape.withMembers ms) := by
  intro s h
  cases s with
  | record | inlineRecord => rfl
  | union | enumeration => exact h

theorem keepsRecords_addAlternative (t : TypeRef) : KeepsRecords (Shape.addAlternative t) := by
  intro s h
  cases s with
  | union => cases h
  | record | inlineRecord | enumeration => exact h

theorem keepsRecords_reverseAlternatives : KeepsRecords Shape.reverseAlternatives := by
  intro s h
  cases s with
  | union => cases h
  | record | inlineRecord | enumeration => exact h

theorem keepsRecords_withValues (values : List TypeRef) :
    KeepsRecords (Shape.withValues values) := by
  intro s h
  cases s with
  | enumeration => cases h
  | record | inlineRecord | union => exact h

theorem recordsOf_update (hf : KeepsRecords f) {i : Nat} (h : recordsOf r i) :
    recordsOf (r.update slot f) i := by
  rw [recordsOf_iff] at h ⊢
  obtain ⟨d, hd, hmembers⟩ := h
  rw [getElem?_graph_update, hd]
  split
  · exact ⟨_, rfl, hf d.shape hmembers⟩
  · exact ⟨d, rfl, hmembers⟩

namespace Inv

/-- A slot that is underway can change at will. -/
theorem change (h : Inv ctx asked U r) (hslot : U slot) (hf : KeepsRecords f) :
    Inv ctx asked U (r.update slot f) where
  length := by rw [Registry.keys_update, Registry.length_graph_update, h.length]
  filled {i key} hkey hunder := by
    have hne : slot ≠ i := fun heq => hunder (heq ▸ hslot)
    obtain ⟨shape, hshape, hfills⟩ := h.filled hkey hunder
    refine ⟨shape, ?_, hfills.mono (List.prefix_refl _) fun _ => recordsOf_update hf⟩
    rw [getElem?_graph_update, if_neg hne, hshape]

/-- **A slot is done** once its shape is what its key stands for. -/
theorem finish (h : Inv ctx asked (also U slot) r) (hkey : r.keys[slot]? = some key)
    (hshape : r.graph[slot]? = some ⟨slot + 1, shape⟩) (hf : KeepsRecords f)
    (hfills : Fills ctx r.keys (recordsOf r) asked key (f shape)) :
    Inv ctx asked U (r.update slot f) where
  length := by rw [Registry.keys_update, Registry.length_graph_update, h.length]
  filled {i key'} hkey' hunder := by
    by_cases heq : slot = i
    · subst heq
      obtain rfl := Option.some.inj (hkey.symm.trans hkey')
      refine ⟨f shape, ?_, hfills.mono (List.prefix_refl _) fun _ => recordsOf_update hf⟩
      rw [getElem?_graph_update, if_pos rfl, hshape, Option.map_some]
    · have hother : ¬ also U slot i := fun hu => hu.elim hunder fun hi => heq hi.symm
      obtain ⟨shape', hshape', hfills'⟩ := h.filled hkey' hother
      refine ⟨shape', ?_, hfills'.mono (List.prefix_refl _) fun _ => recordsOf_update hf⟩
      rw [getElem?_graph_update, if_neg heq, hshape']

end Inv

end Extraction

end DeclaredSchema
