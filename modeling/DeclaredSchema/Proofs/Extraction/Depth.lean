import DeclaredSchema.Proofs.Declaration.Size
import DeclaredSchema.Proofs.Extraction.Blame
import Mathlib.Tactic.Ring

/-!
# How deep resolutions go

A way down through nested types passes from an array to its elements, or it takes a new slot. Between
two slots it goes through arrays only, and these are written in different places, unless an array is
an element of itself. And there are no more slots than declarations, inline objects and inline unions.
So no way down is as long as the bound of extraction, unless there is such an array; a file that has
one has no complete table.

## Main definitions

* `IsElement`, `HasEndlessArray` — from an array to its elements, and arrays that never end
* `TypeRef.depth` — how deep a type is nested in arrays
* `Scope.outer`, `Scope.slotKeys` — the expressions that may be arrays, and the keys
* `Passes` — the arrays on a way down since the last slot

## Main results

* `IsComplete.not_hasEndlessArray` — in a file that has a complete table all arrays end
* `Descent.length_le` — a way down is as long as the slots and the arrays on it allow
* `not_deep` — none is as long as the bound
-/

namespace DeclaredSchema

/-- How many arrays a type is wrapped in. -/
def TypeRef.depth : TypeRef → Nat
  | .array element => element.depth + 1
  | _ => 0

/-- Whether an expression gets a slot of its own where it is resolved. -/
def Node.isInline (n : Node) : Bool := n.expr.isObject || n.expr.isUnion

/-- The expressions of a file besides objects and unions. -/
def Scope.outer (scope : Scope) : List Node := scope.nodes.filter fun n => !n.isInline

/-- The keys that a table may have. -/
def Scope.slotKeys (scope : Scope) : List NodeKey :=
  scope.map (fun d => .declared d.name) ++
    (scope.nodes.filter Node.isInline).map fun n => .inline n.site

namespace Extraction

/-- From an array type to the type of its elements, both stripped. -/
inductive IsElement (scope : Scope) : Node → Node → Prop
  | array {s : Site} {element : TypeExpr} {t : Stripped}
      (ht : Strips scope ⟨s.child 0, element⟩ t) : IsElement scope ⟨s, .array element⟩ t.node
  | arrayName {s : Site} {name : String} {element : TypeExpr} {position : Position} {t : Stripped}
      (hfind : scope.find? name = none) (hname : arrayNames.contains name = true)
      (ht : Strips scope ⟨s.child 0, element⟩ t) :
      IsElement scope ⟨s, .reference name [element] position⟩ t.node

/-- Some type that is resolved is an array whose elements are such arrays, or arrays of them, and so
on without end. -/
def HasEndlessArray (ctx : ExtractionContext) : Prop :=
  ∃ n, Resolved ctx n ∧ Relation.TransGen (IsElement ctx.scope) n n

variable {ctx : ExtractionContext} {scope : Scope} {keys seen : List NodeKey} {n m : Node}
  {raw raw' : Option String} {t t' : TypeRef} {r : Registry} {depth : Nat} {key : NodeKey}

/-! ### Arrays -/

theorem isElement_of_mem_needs (hkey : keyOf? ctx.scope n = none) (hm : m ∈ needs ctx n)
    {inner : Stripped} (ht : Strips ctx.scope m inner) : IsElement ctx.scope n inner.node := by
  obtain ⟨s, e⟩ := n
  unfold needs at hm
  split at hm
  · next element he =>
    cases he
    rw [List.mem_singleton.mp hm] at ht
    exact .array ht
  · next ps position he =>
    cases he
    cases hkey
  · next es he =>
    cases he
    cases hkey
  · next name element position he =>
    cases he
    split at hm
    · next hname =>
      rw [Bool.and_eq_true, Option.isNone_iff_eq_none] at hname
      rw [List.mem_singleton.mp hm] at ht
      exact .arrayName hname.1 hname.2 ht
    · cases hm
  · cases hm

/-- An array type has no slot of its own. -/
theorem IsElement.isInline_eq (h : IsElement scope n m) : n.isInline = false := by
  cases h <;> rfl

/-- How a type is named does not change how deep it is. -/
theorem Denotes.depth_eq (h : Denotes scope keys n raw t) (h' : Denotes scope keys n raw' t') :
    t.depth = t'.depth := by
  cases h with
  | array ht h =>
    cases h' with
    | array ht' h' =>
      obtain rfl := ht.unique ht'
      rw [h.unique h']
  | arrayName hd hname ht h =>
    cases h' with
    | arrayName hd' hname' ht' h' =>
      obtain rfl := ht.unique ht'
      rw [h.unique h']
  | keyword | literal | object | union | declared | date | openScalar => cases h' <;> rfl

/-- An array is deeper than its elements. -/
theorem IsElement.exists_denotes (helement : IsElement scope n m) (h : Denotes scope keys n raw t) :
    ∃ raw' t', Denotes scope keys m raw' t' ∧ t'.depth < t.depth := by
  cases helement with
  | array ht =>
    cases h with
    | array ht' h =>
      obtain rfl := ht.unique ht'
      exact ⟨_, _, h, Nat.lt_succ_self _⟩
  | arrayName hfind hname ht =>
    cases h with
    | arrayName _ _ ht' h =>
      obtain rfl := ht.unique ht'
      exact ⟨_, _, h, Nat.lt_succ_self _⟩

theorem exists_denotes_of_transGen (h : Relation.TransGen (IsElement scope) n m)
    (ht : Denotes scope keys n raw t) :
    ∃ raw' t', Denotes scope keys m raw' t' ∧ t'.depth < t.depth := by
  induction h with
  | single helement => exact helement.exists_denotes ht
  | tail _ helement ih =>
    obtain ⟨_, _, ht', hlt⟩ := ih
    obtain ⟨raw', t'', ht'', hlt'⟩ := helement.exists_denotes ht'
    exact ⟨raw', t'', ht'', hlt'.trans hlt⟩

/-- **All arrays end** in a file that has a complete table: none is deeper than itself. -/
theorem IsComplete.not_hasEndlessArray (hscope : IsUnambiguous ctx.scope)
    (hcomplete : IsComplete ctx r) : ¬HasEndlessArray ctx := by
  rintro ⟨n, hn, hcycle⟩
  obtain ⟨raw, t, ht⟩ := hcomplete.exists_denotes hscope hn
  obtain ⟨raw', t', ht', hlt⟩ := exists_denotes_of_transGen hcycle ht
  exact absurd (ht'.depth_eq ht) (Nat.ne_of_lt hlt)

/-! ### Slots -/

theorem mem_slotKeys (hscope : IsUnambiguous ctx.scope) (h : MayTake ctx (Resolved ctx) key) :
    key ∈ ctx.scope.slotKeys := by
  cases key with
  | declared name =>
    obtain ⟨d, hd, rfl, -⟩ := h
    exact List.mem_append_left _ (List.mem_map.mpr ⟨d, hd, rfl⟩)
  | inline s =>
    obtain ⟨n, hn, rfl, hinline⟩ := h
    have hmem : n ∈ ctx.scope.nodes.filter Node.isInline :=
      List.mem_filter.mpr ⟨mem_nodes_of_isAt (hn.isAt hscope), Bool.or_eq_true_iff.mpr hinline⟩
    exact List.mem_append_right _ (List.mem_map.mpr ⟨n, hmem, rfl⟩)

/-! ### Ways down -/

/-- The different arrays of `ns`, each of which leads to `n` from array to element. -/
structure Passes (scope : Scope) (ns : List Node) (n : Node) : Prop where
  nodup : ns.Nodup
  outer : ns ⊆ scope.outer
  leads : ∀ m ∈ ns, Relation.TransGen (IsElement scope) m n

theorem Passes.nil : Passes scope [] n :=
  ⟨List.nodup_nil, List.nil_subset _, fun _ hm => absurd hm List.not_mem_nil⟩

/-- One more array is passed. It is another one than those before, unless it is endless. -/
theorem Passes.cons {ns : List Node} (h : Passes scope ns n) (hn : IsAt scope n)
    (hends : ¬Relation.TransGen (IsElement scope) n n) (helement : IsElement scope n m) :
    Passes scope (n :: ns) m := by
  have houter : n ∈ scope.outer := by
    refine List.mem_filter.mpr ⟨mem_nodes_of_isAt hn, ?_⟩
    rw [helement.isInline_eq, Bool.not_false]
  refine ⟨List.nodup_cons.mpr ⟨fun hmem => hends (h.leads n hmem), h.nodup⟩,
    List.cons_subset.mpr ⟨houter, h.outer⟩, fun k hk => ?_⟩
  rcases List.mem_cons.mp hk with rfl | hk
  · exact .single helement
  · exact .tail (h.leads k hk) helement

/-- **A way down** takes all slots that it has not passed yet at most, and goes through all arrays
before each of them. -/
theorem Descent.length_le (hscope : IsUnambiguous ctx.scope) (hends : ¬HasEndlessArray ctx)
    (h : Descent ctx seen depth n) (hn : Resolved ctx n) (hseen : seen.Nodup)
    (hkeys : seen ⊆ ctx.scope.slotKeys) {ns : List Node} (hns : Passes ctx.scope ns n) :
    depth ≤ (ctx.scope.slotKeys.length - seen.length) * (ctx.scope.outer.length + 1) +
      (ctx.scope.outer.length - ns.length) := by
  induction h generalizing ns with
  | stop => exact Nat.zero_le _
  | @element seen depth n m t hkey hm hstrips _ ih =>
    have hpasses : Passes ctx.scope (n :: ns) t.node :=
      hns.cons (hn.isAt hscope) (fun hcycle => hends ⟨n, hn, hcycle⟩)
        (isElement_of_mem_needs hkey hm hstrips)
    have hle := ih (.nested hn hm hstrips) hseen hkeys hpasses
    have hlength : ns.length + 1 ≤ ctx.scope.outer.length :=
      hpasses.nodup.length_le_of_subset hpasses.outer
    rw [List.length_cons] at hle
    omega
  | @slot seen depth n m key hkey hmay hnew hm _ ih =>
    have hseen' : (key :: seen).Nodup := List.nodup_cons.mpr ⟨hnew, hseen⟩
    have hkeys' : key :: seen ⊆ ctx.scope.slotKeys :=
      List.cons_subset.mpr ⟨mem_slotKeys hscope hmay, hkeys⟩
    have hle := ih hm hseen' hkeys' .nil
    -- one more slot is passed, and what is left of the arrays is enough for its types
    have hlength : seen.length + 1 ≤ ctx.scope.slotKeys.length :=
      hseen'.length_le_of_subset hkeys'
    obtain ⟨more, hmore⟩ := Nat.exists_eq_add_of_le hlength
    rw [hmore, List.length_cons, Nat.add_sub_cancel_left, List.length_nil, Nat.sub_zero] at hle
    rw [hmore, Nat.add_assoc, Nat.add_sub_cancel_left, Nat.add_comm 1 more, Nat.succ_mul]
    omega

/-! ### The bound -/

/-- The keys and the other expressions of a file are about as many as it is large. -/
theorem length_slotKeys_mul_le (file : SourceUnit) :
    (Scope.slotKeys file.declarations).length * ((Scope.outer file.declarations).length + 1) +
      (Scope.outer file.declarations).length < depthBound file := by
  obtain ⟨hnodes, hdeclarations⟩ := length_nodes_le file
  have hsplit := List.length_eq_length_filter_add (l := Scope.nodes file.declarations) Node.isInline
  rw [Scope.slotKeys, List.length_append, List.length_map, List.length_map, depthBound]
  rw [Scope.outer]
  generalize (List.filter Node.isInline (Scope.nodes file.declarations)).length = inline at *
  generalize (List.filter (fun n => !n.isInline) (Scope.nodes file.declarations)).length = outer at *
  obtain ⟨more, hmore⟩ := Nat.exists_eq_add_of_le (show inline + outer ≤ file.size by omega)
  rw [hmore] at hdeclarations ⊢
  calc (file.declarations.length + inline) * (outer + 1) + outer
      ≤ (inline + outer + more + inline) * (outer + 1) + outer := by gcongr
    _ < (inline + outer + more + 2) * (inline + outer + more + 2) := by ring_nf; omega

/-- **No way down is as long as the bound**, if all arrays end. -/
theorem not_deep {file : SourceUnit} {unionsAsEnums : Bool}
    (hscope : IsUnambiguous file.declarations)
    (hends : ¬HasEndlessArray ⟨file.declarations, unionsAsEnums⟩) (hdepth : depthBound file ≤ depth) :
    ¬Deep ⟨file.declarations, unionsAsEnums⟩ [] depth := by
  rintro ⟨n, hn, hdescent⟩
  have hle := hdescent.length_le hscope hends hn List.nodup_nil (List.nil_subset _) .nil
  rw [List.length_nil, List.length_nil, Nat.sub_zero, Nat.sub_zero] at hle
  exact Nat.not_lt.mpr (hdepth.trans hle) (length_slotKeys_mul_le file)

end Extraction

end DeclaredSchema
