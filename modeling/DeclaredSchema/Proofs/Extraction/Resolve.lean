import DeclaredSchema.Proofs.Extraction.Completion
import DeclaredSchema.Proofs.Extraction.Members

/-!
# Slots are taken once

Whoever asks for the slot of a declaration, or of an inline type, gets the one that its key has, or
takes a new one and completes it. While it is completed the key is there already, so a type that
reaches itself gets the same slot.

## Main definitions

* `Takes` — a step leaves a key with a slot
* `slotFor` — the slot of a declaration

## Main results

* `interface_takes`, `enumeration_takes`, `aliasSlot?_keeps` — the slots of declarations
* `inlineObject_takes`, `inlineUnion_takes` — the slots of inline types
* `resolve_isResolver` — resolution yields what types stand for
* `slotFor_keeps` — declarations that have a slot get it
-/

namespace DeclaredSchema

namespace Extraction

/-- The types within what is resolved are resolved, and those within declarations. -/
structure IsClosed (ctx : ExtractionContext) (asked : Node → Prop) : Prop where
  declared : ∀ {d m}, d ∈ ctx.scope → m ∈ declarationNeeds ctx d → Admits ctx asked m
  nested : ∀ {n m}, asked n → m ∈ needs ctx n → Admits ctx asked m

/-- The step from `r` to `r'` leaves the key with the slot, and otherwise all slots of `r`. -/
structure Takes (ctx : ExtractionContext) (asked : Node → Prop) (U : Nat → Prop) (r r' : Registry)
    (key : NodeKey) (slot : Nat) : Prop extends Keeps ctx asked U r r' where
  taken : slotIn r'.keys key = some slot

variable {ctx : ExtractionContext} {asked : Node → Prop} {U : Nat → Prop} {r r' : Registry}
  {n : Node} {s : Signature} {t : TypeRef} {owner : String} {u : PUnit} {key : NodeKey}
  {slot : Nat} {shape : Shape} {f : Shape → Shape}

theorem Takes.refl (hinv : Inv ctx asked U r) (h : slotIn r.keys key = some slot) :
    Takes ctx asked U r r key slot :=
  ⟨.refl hinv, h⟩

/-! ### A new slot -/

/-- The key of a slot that is being completed stays where it is. -/
theorem slotIn_of_add (hinv : Inv ctx asked U r) (hfree : slotIn r.keys key = none)
    (hgrows : Grows ctx asked (r.add key shape) r') :
    slotIn r'.keys key = some r.graph.length := by
  refine slotIn_of_isPrefix hgrows.keys ?_
  rw [Registry.keys_add, slotIn_concat (slotIn_eq_none_iff.mp hfree), hinv.length]

/-- **A new slot** is completed by one change, when all that it needs is resolved. -/
theorem Takes.complete (hinv : Inv ctx asked U r) (hfree : slotIn r.keys key = none)
    (hmay : MayTake ctx asked key)
    (h : Keeps ctx asked (also U r.graph.length) (r.add key shape) r') (hf : KeepsRecords f)
    (hfills : Fills ctx r'.keys (recordsOf r') asked key (f shape)) :
    Takes ctx asked U r (r'.update r.graph.length f) key r.graph.length where
  inv := by
    refine h.inv.finish ?_ (getElem?_of_isPrefix h.grows.graph getElem?_graph_add) hf hfills
    exact getElem?_of_isPrefix h.grows.keys (getElem?_keys_add hinv.length)
  grows := ((Grows.add hfree hmay).trans h.grows).update (Nat.le_refl _)
  taken := by
    rw [Registry.keys_update]
    exact slotIn_of_add hinv hfree h.grows

/-- For whom members are resolved only matters to messages. -/
theorem flatMap_parts_signatures {site : Site} {owner : String} {ps : List (Property TypeExpr)} :
    (site.signatures owner ps).flatMap parts = (site.signatures "" ps).flatMap parts := by
  rw [Site.signatures, Site.signatures, List.flatMap_map, List.flatMap_map]
  rfl

/-! ### Declarations -/

section Step

variable {rec : Resolver}

/-- A slot is found, or a new one is taken and completed. -/
theorem takes_of_slotOf {fresh : Extract Nat} (hinv : Inv ctx asked U r)
    (hfresh : slotIn r.keys key = none → Yields fresh r slot r' → Takes ctx asked U r r' key slot)
    (h : Yields (do
      match ← slotOf key with
      | some slot => return slot
      | none => fresh) r slot r') : Takes ctx asked U r r' key slot := by
  obtain ⟨found, a, hfound, h⟩ := yields_bind.mp h
  obtain ⟨hfound, rfl⟩ := yields_slotOf.mp hfound
  cases found with
  | some slot' =>
    obtain ⟨rfl, rfl⟩ := yields_pure.mp h
    exact .refl hinv hfound.symm
  | none => exact hfresh hfound.symm h

theorem interface_takes (hrec : IsResolver ctx asked rec) (hclosed : IsClosed ctx asked)
    (hinv : Inv ctx asked U r) {d : Interface} (hd : .interface d ∈ ctx.scope)
    (h : Yields (interface ctx rec d) r slot r') :
    Takes ctx asked U r r' (.declared d.name) slot := by
  refine takes_of_slotOf hinv (fun hfree h => ?_) h
  simp only [yields_bind, yields_register, yields_change, yields_pure] at h
  obtain ⟨_, _, ⟨rfl, rfl⟩, ms, b, hms, _, _, rfl, rfl, rfl⟩ := h
  have hmay : MayTake ctx asked (.declared d.name) := ⟨.interface d, hd, rfl, rfl⟩
  obtain ⟨hkeeps, ms, hall, rfl⟩ := foldLineage_keeps hrec (hinv.add hfree hmay)
    (fun n hn => hclosed.declared hd hn) hms
  exact .complete hinv hfree hmay hkeeps (keepsRecords_withMembers _) (.interface hd hall)

theorem enumValue_yields {d : Enumeration} {m : EnumEntry} (h : Yields (enumValue d m) r t r') :
    IsValueOf d m t ∧ r' = r := by
  unfold enumValue at h
  split at h
  · next text hvalue =>
    obtain ⟨rfl, rfl⟩ := yields_pure.mp h
    exact ⟨⟨text, hvalue, rfl⟩, rfl⟩
  · exact absurd h yields_failAt

theorem enumeration_takes (hinv : Inv ctx asked U r) {d : Enumeration}
    (hd : .enumeration d ∈ ctx.scope) (h : Yields (enumeration d) r slot r') :
    Takes ctx asked U r r' (.declared d.name) slot := by
  refine takes_of_slotOf hinv (fun hfree h => ?_) h
  simp only [yields_bind, yields_register, yields_change, yields_pure] at h
  obtain ⟨_, _, ⟨rfl, rfl⟩, values, b, hvalues, _, _, rfl, rfl, rfl⟩ := h
  have hmay : MayTake ctx asked (.declared d.name) := ⟨.enumeration d, hd, rfl, rfl⟩
  obtain ⟨-, rfl, hall⟩ := Yields.mapM (fun _ => True) (fun r r' => r' = r)
    (fun _ => IsValueOf d) (fun _ => rfl) (fun h h' => h'.trans h) (fun _ h => h)
    (fun m _ _ _ _ _ hm => ⟨trivial, (enumValue_yields hm).2, (enumValue_yields hm).1⟩)
    hvalues trivial
  exact .complete hinv hfree hmay (.refl (hinv.add hfree hmay)) (keepsRecords_withValues _)
    (.enumeration hd hall)

/-! ### Unions -/

/-- A union that has the alternatives of `before` so far gets those of `ns` as well. -/
theorem fillUnion_keeps (hrec : IsResolver ctx asked rec) {name doc : Option String}
    {before ns : List Node} {acc : List TypeRef}
    (hinv : Inv ctx asked (also U slot) r') (hgrows : Grows ctx asked r r')
    (hslot : r.graph.length ≤ slot) (hkey : r'.keys[slot]? = some key)
    (hshape : r'.graph[slot]? = some ⟨slot + 1, .union name doc acc⟩)
    (hbefore : List.Forall₂ (IsAlternative ctx.scope r'.keys) before acc.reverse)
    (hadmits : ∀ n ∈ ns, Admits ctx asked n)
    (hfills : ∀ {keys records rs}, List.Forall₂ (IsAlternative ctx.scope keys) (before ++ ns) rs →
      Fills ctx keys records asked key (.union name doc rs)) {r'' : Registry}
    (h : Yields (fillUnion ctx rec slot owner ns) r' u r'') :
    Keeps ctx asked U r r'' ∧ r'.keys <+: r''.keys := by
  induction ns generalizing before acc r' with
  | nil =>
    obtain rfl := yields_change.mp h
    rw [List.append_nil] at hfills
    refine ⟨⟨?_, hgrows.update hslot⟩, List.prefix_refl _⟩
    exact hinv.finish hkey hshape keepsRecords_reverseAlternatives (hfills hbefore)
  | cons n rest ih =>
    simp only [fillUnion, yields_bind, yields_change] at h
    obtain ⟨t, a, ht, _, _, rfl, h⟩ := h
    obtain ⟨hkeeps, ht⟩ := alternative_keeps hrec hinv (hadmits n (List.mem_cons_self ..)) ht
    have hchanged : (a.update slot (Shape.addAlternative t)).graph[slot]? =
        some ⟨slot + 1, .union name doc (t :: acc)⟩ := by
      rw [getElem?_graph_update, if_pos rfl, getElem?_of_isPrefix hkeeps.grows.graph hshape]
      rfl
    have hall : List.Forall₂ (IsAlternative ctx.scope a.keys) (before ++ [n])
        (t :: acc).reverse := by
      rw [List.reverse_cons]
      refine List.rel_append (hbefore.imp fun _ _ hr => hr.mono hkeeps.grows.keys) ?_
      exact .cons ht .nil
    rw [List.append_cons] at hfills
    obtain ⟨hkeeps', hkeys⟩ := ih
      (hkeeps.inv.change (.inr rfl) (keepsRecords_addAlternative t))
      ((hgrows.trans hkeeps.grows).update hslot) (getElem?_of_isPrefix hkeeps.grows.keys hkey)
      hchanged hall (fun m hm => hadmits m (List.mem_cons_of_mem _ hm)) hfills h
    exact ⟨hkeeps', hkeeps.grows.keys.trans hkeys⟩

theorem newUnion_takes (hrec : IsResolver ctx asked rec) (hinv : Inv ctx asked U r)
    (hfree : slotIn r.keys key = none) (hmay : MayTake ctx asked key) {name doc : Option String}
    {ns : List Node} (hadmits : ∀ n ∈ ns, Admits ctx asked n)
    (hfills : ∀ {keys records rs}, List.Forall₂ (IsAlternative ctx.scope keys) ns rs →
      Fills ctx keys records asked key (.union name doc rs))
    (h : Yields (newUnion ctx rec key name doc owner ns) r slot r') :
    Takes ctx asked U r r' key slot := by
  simp only [newUnion, yields_bind, yields_register, yields_pure] at h
  obtain ⟨_, _, ⟨rfl, rfl⟩, _, _, hfill, rfl, rfl⟩ := h
  have hnone : List.Forall₂ (IsAlternative ctx.scope (r.add key (.union name doc [])).keys) []
      ([] : List TypeRef).reverse := .nil
  obtain ⟨hkeeps, hkeys⟩ := fillUnion_keeps hrec (hinv.add hfree hmay) (.add hfree hmay)
    (Nat.le_refl _) (getElem?_keys_add hinv.length) getElem?_graph_add hnone hadmits hfills hfill
  refine ⟨hkeeps, slotIn_of_isPrefix hkeys ?_⟩
  exact slotIn_of_add hinv hfree (.refl (r.add key (.union name doc [])))

/-- All types of a list are texts if all are literals, of which none is dropped, and these texts. -/
theorem all_text_eq (ns : List Node) :
    (ns.all fun n => n.expr.text?.isSome) =
      ((ns.filterMap fun n => n.expr.literal?).length == ns.length &&
        (ns.filterMap fun n => n.expr.literal?).all fun v => v.text?.isSome) := by
  induction ns with
  | nil => rfl
  | cons n rest ih =>
    have hle := List.length_filterMap_le (fun n : Node => n.expr.literal?) rest
    cases hliteral : n.expr.literal? with
    | none =>
      have htext : n.expr.text? = none := by rw [TypeExpr.text?, hliteral, Option.bind_none]
      have hne : ((rest.filterMap fun n => n.expr.literal?).length == rest.length + 1) = false := by
        rw [beq_eq_false_iff_ne]
        omega
      simp only [List.all_cons, htext, List.filterMap_cons, hliteral, List.length_cons, hne]
      rfl
    | some v =>
      have htext : n.expr.text? = v.text? := by rw [TypeExpr.text?, hliteral, Option.bind_some]
      simp only [List.all_cons, htext, List.filterMap_cons, hliteral, List.length_cons, ih]
      cases v.text?.isSome <;> simp

theorem declarationNeeds_object {d : Alias} (hshape : namesShape ctx.scope d = true) {site : Site}
    {ps : List (Property TypeExpr)} {position : Position}
    (hobject : alternatives ctx.scope d.node = [⟨site, .object ps position⟩]) :
    declarationNeeds ctx (.typeAlias d) = (site.signatures d.name ps).flatMap parts := by
  simp only [declarationNeeds, if_pos hshape, hobject]

theorem declarationNeeds_union {d : Alias} (hshape : namesShape ctx.scope d = true)
    (hunion : 2 ≤ (alternatives ctx.scope d.node).length)
    (htexts : isTextEnumeration ctx (alternatives ctx.scope d.node) = false) :
    declarationNeeds ctx (.typeAlias d) = alternatives ctx.scope d.node := by
  simp only [declarationNeeds, if_pos hshape]
  split
  · next hobject =>
    rw [hobject] at hunion
    exact absurd hunion not_two_le_length_singleton
  · rw [htexts]
    rfl

theorem declarationNeeds_texts {d : Alias} (hshape : namesShape ctx.scope d = true)
    (htexts : isTextEnumeration ctx (alternatives ctx.scope d.node) = true) :
    declarationNeeds ctx (.typeAlias d) = [] := by
  simp only [declarationNeeds, if_pos hshape]
  split
  · next hobject =>
    rw [hobject, isTextEnumeration_object] at htexts
    cases htexts
  · rw [htexts]
    rfl

/-- **Named unions** are unions, or enumerations if they consist of texts and these are asked for. -/
theorem namedUnion_takes (hrec : IsResolver ctx asked rec) (hclosed : IsClosed ctx asked)
    (hinv : Inv ctx asked U r) {d : Alias} (hd : .typeAlias d ∈ ctx.scope)
    (hshape : namesShape ctx.scope d = true)
    (hunion : 2 ≤ (alternatives ctx.scope d.node).length)
    (hfree : slotIn r.keys (.declared d.name) = none)
    (h : Yields (namedUnion ctx rec d (alternatives ctx.scope d.node)) r slot r') :
    Takes ctx asked U r r' (.declared d.name) slot := by
  have hmay : MayTake ctx asked (.declared d.name) := ⟨.typeAlias d, hd, rfl, hshape⟩
  have hnew : isTextEnumeration ctx (alternatives ctx.scope d.node) = false →
      Yields (newUnion ctx rec (.declared d.name) (some d.name) d.doc d.name
        (alternatives ctx.scope d.node)) r slot r' →
      Takes ctx asked U r r' (.declared d.name) slot := by
    intro htexts h
    refine newUnion_takes hrec hinv hfree hmay (fun n hn => hclosed.declared hd ?_)
      (.unionAlias hd hshape hunion htexts) h
    rwa [declarationNeeds_union hshape hunion htexts]
  have htexts := all_text_eq (alternatives ctx.scope d.node)
  unfold namedUnion at h
  rw [yields_ite] at h
  rcases h with ⟨hliterals, h⟩ | ⟨hliterals, h⟩
  · rw [Bool.and_eq_true] at hliterals
    rw [hliterals.2, Bool.true_and] at htexts
    rw [yields_ite] at h
    rcases h with ⟨hall, h⟩ | ⟨hall, h⟩
    · obtain ⟨rfl, rfl⟩ := yields_register.mp h
      have henum : isTextEnumeration ctx (alternatives ctx.scope d.node) = true := by
        rw [isTextEnumeration, hliterals.1, htexts, hall]
        rfl
      refine ⟨⟨hinv.addComplete hfree hmay (.textAlias hd hshape henum), .add hfree hmay⟩, ?_⟩
      exact slotIn_of_add hinv hfree (.refl _)
    · rw [yields_ite] at h
      rcases h with ⟨-, h⟩ | ⟨-, h⟩
      · exact absurd h yields_failAt
      · refine hnew ?_ h
        rw [isTextEnumeration, htexts, Bool.eq_false_iff.mpr hall, Bool.and_false]
  · refine hnew ?_ h
    rw [isTextEnumeration, htexts, ← Bool.and_assoc, Bool.eq_false_iff.mpr hliterals,
      Bool.false_and]

/-- An alias that names a shape and is no object type has several alternatives. -/
theorem two_le_length_of_namesShape {d : Alias} (hshape : namesShape ctx.scope d = true)
    (hobject : ∀ site ps position,
      alternatives ctx.scope d.node ≠ [⟨site, .object ps position⟩]) :
    2 ≤ (alternatives ctx.scope d.node).length := by
  unfold namesShape at hshape
  match hns : alternatives ctx.scope d.node with
  | [] =>
    rw [hns] at hshape
    cases hshape
  | [⟨site, x⟩] =>
    rw [hns] at hshape
    cases x with
    | object ps position => exact absurd hns (hobject site ps position)
    | keyword | literal | reference | array | union | function => cases hshape
  | _ :: _ :: _ => exact Nat.le_add_left _ _

/-- An alias that names a shape gets a slot, and no other alias does. -/
theorem aliasSlot?_keeps (hrec : IsResolver ctx asked rec) (hclosed : IsClosed ctx asked)
    (hinv : Inv ctx asked U r) {d : Alias} (hd : .typeAlias d ∈ ctx.scope) {found : Option Nat}
    (h : Yields (aliasSlot? ctx rec d) r found r') :
    Keeps ctx asked U r r' ∧
      (∀ slot, found = some slot → slotIn r'.keys (.declared d.name) = some slot) ∧
      (found = none → namesShape ctx.scope d = false) := by
  have htakes : ∀ {slot}, Takes ctx asked U r r' (.declared d.name) slot →
      Keeps ctx asked U r r' ∧
        (∀ slot', some slot = some slot' → slotIn r'.keys (.declared d.name) = some slot') ∧
        (some slot = none → namesShape ctx.scope d = false) := by
    intro slot htakes
    refine ⟨htakes.toKeeps, fun _ heq => Option.some.inj heq ▸ htakes.taken, fun hnone => ?_⟩
    exact absurd hnone (Option.some_ne_none _)
  rw [aliasSlot?, yields_bind] at h
  obtain ⟨known, a, hknown, h⟩ := h
  obtain ⟨hknown, rfl⟩ := yields_slotOf.mp hknown
  cases known with
  | some slot =>
    obtain ⟨rfl, rfl⟩ := yields_pure.mp h
    exact htakes (.refl hinv hknown.symm)
  | none =>
    have hfree := hknown.symm
    simp only [yields_ite] at h
    rcases h with ⟨hshape, h⟩ | ⟨hshape, h⟩
    · obtain ⟨rfl, rfl⟩ := yields_pure.mp h
      refine ⟨.refl hinv, fun _ hsome => ?_, fun _ => by simpa using hshape⟩
      exact absurd hsome.symm (Option.some_ne_none _)
    · have hshape : namesShape ctx.scope d = true := by simpa using hshape
      have hmay : MayTake ctx asked (.declared d.name) := ⟨.typeAlias d, hd, rfl, hshape⟩
      split at h
      · next site ps position hobject =>
        simp only [yields_bind, yields_register, yields_change, yields_pure] at h
        obtain ⟨_, _, ⟨rfl, rfl⟩, ms, b, hms, _, _, rfl, rfl, rfl⟩ := h
        have hneeds := declarationNeeds_object hshape hobject
        obtain ⟨hkeeps, hall⟩ := members_keeps hrec (hinv.add hfree hmay)
          (fun n hn => hclosed.declared hd (hneeds ▸ hn)) hms
        exact htakes (.complete hinv hfree hmay hkeeps (keepsRecords_withMembers ms)
          (.objectAlias hd hshape hobject hall))
      · next hobject =>
        have hunion := two_le_length_of_namesShape hshape hobject
        rw [yields_bind] at h
        obtain ⟨slot, b, hslot, h⟩ := h
        obtain ⟨rfl, rfl⟩ := yields_pure.mp h
        exact htakes (namedUnion_takes hrec hclosed hinv hd hshape hunion hfree hslot)

/-! ### Inline types -/

theorem inlineObject_takes (hrec : IsResolver ctx asked rec) (hclosed : IsClosed ctx asked)
    (hinv : Inv ctx asked U r) {site : Site} {ps : List (Property TypeExpr)} {position : Position}
    (hasked : asked ⟨site, .object ps position⟩)
    (h : Yields (inlineObject ctx rec site ps position owner) r slot r') :
    Takes ctx asked U r r' (.inline site) slot := by
  refine takes_of_slotOf hinv (fun hfree h => ?_) h
  simp only [yields_bind, yields_register, yields_change, yields_pure] at h
  obtain ⟨_, _, ⟨rfl, rfl⟩, ms, b, hms, _, _, rfl, rfl, rfl⟩ := h
  have hmay : MayTake ctx asked (.inline site) := ⟨_, hasked, rfl, .inl rfl⟩
  have hadmits : ∀ n ∈ (site.signatures owner ps).flatMap parts, Admits ctx asked n := by
    rw [flatMap_parts_signatures]
    exact fun n hn => hclosed.nested hasked hn
  obtain ⟨hkeeps, hall⟩ := members_keeps hrec (hinv.add hfree hmay) hadmits hms
  exact .complete hinv hfree hmay hkeeps (keepsRecords_withMembers ms) (.object hasked hall)

theorem inlineUnion_takes (hrec : IsResolver ctx asked rec) (hclosed : IsClosed ctx asked)
    (hinv : Inv ctx asked U r) {site : Site} {es : List TypeExpr}
    (hasked : asked ⟨site, .union es⟩)
    (h : Yields (inlineUnion ctx rec ⟨site, .union es⟩ owner) r slot r') :
    Takes ctx asked U r r' (.inline site) slot := by
  refine takes_of_slotOf hinv (fun hfree h => ?_) h
  exact newUnion_takes hrec hinv hfree ⟨_, hasked, rfl, .inr rfl⟩
    (fun n hn => hclosed.nested hasked hn) (.union hasked) h

/-! ### Type expressions -/

theorem array_keeps (hrec : IsResolver ctx asked rec) (hinv : Inv ctx asked U r)
    (hadmits : Admits ctx asked n) (h : Yields (array ctx rec n owner) r t r') :
    Keeps ctx asked U r r' ∧ ∃ element, IsAlternative ctx.scope r'.keys n element ∧
      t = .array element := by
  rw [array, yields_bind] at h
  obtain ⟨element, a, helement, h⟩ := h
  obtain ⟨rfl, rfl⟩ := yields_pure.mp h
  obtain ⟨hkeeps, helement⟩ := alternative_keeps hrec hinv hadmits helement
  exact ⟨hkeeps, element, helement, rfl⟩

theorem undeclared_keeps (hrec : IsResolver ctx asked rec) (hclosed : IsClosed ctx asked)
    (hinv : Inv ctx asked U r) {site : Site} {name : String} {arguments : List TypeExpr}
    {position : Position} {raw : Option String}
    (hasked : asked ⟨site, .reference name arguments position⟩)
    (hfind : ctx.scope.find? name = none)
    (h : Yields (undeclared ctx rec site name arguments position owner) r t r') :
    Keeps ctx asked U r r' ∧
      Denotes ctx.scope r'.keys ⟨site, .reference name arguments position⟩ raw t := by
  unfold undeclared at h
  simp only [yields_ite, yields_pure, yields_failAt, and_false, false_or] at h
  rcases h with ⟨hname, h⟩ | ⟨-, -, hempty, h⟩
  · split at h
    · next element =>
      have hadmits : Admits ctx asked ⟨site.child 0, element⟩ := by
        refine hclosed.nested hasked ?_
        simp only [needs, hfind, hname]
        exact List.mem_singleton_self _
      obtain ⟨hkeeps, r, ⟨inner, hstrips, hdenotes⟩, rfl⟩ := array_keeps hrec hinv hadmits h
      exact ⟨hkeeps, .arrayName hfind hname hstrips hdenotes⟩
    · exact absurd h yields_failAt
  · have hnil : arguments = [] := by simpa using hempty
    subst hnil
    rcases h with ⟨rfl, rfl, rfl⟩ | ⟨hdate, rfl, rfl⟩
    · exact ⟨.refl hinv, .date hfind⟩
    · exact ⟨.refl hinv, .openScalar hfind hdate⟩

theorem reference_keeps (hrec : IsResolver ctx asked rec) (hclosed : IsClosed ctx asked)
    (hinv : Inv ctx asked U r) {site : Site} {name : String} {arguments : List TypeExpr}
    {position : Position} {raw : Option String}
    (hasked : asked ⟨site, .reference name arguments position⟩)
    (h : Yields (reference ctx rec site name arguments position owner) r t r') :
    Keeps ctx asked U r r' ∧
      Denotes ctx.scope r'.keys ⟨site, .reference name arguments position⟩ raw t := by
  unfold reference at h
  split at h
  · next hfind => exact undeclared_keeps hrec hclosed hinv hasked hfind h
  · next d hfind =>
    have hd : d ∈ ctx.scope := Scope.mem_of_find? hfind
    have hname : d.name = name := Scope.name_of_find? hfind
    simp only [yields_ite, yields_failAt, and_false, false_or] at h
    obtain ⟨hempty, h⟩ := h
    have hnil : arguments = [] := by simpa using hempty
    subst hnil
    cases d with
    | interface d =>
      simp only [yields_bind, yields_pure] at h
      obtain ⟨slot, a, hslot, rfl, rfl⟩ := h
      have htakes := interface_takes hrec hclosed hinv hd hslot
      exact ⟨htakes.toKeeps, .declared hfind (hname ▸ htakes.taken)⟩
    | enumeration d =>
      simp only [yields_bind, yields_pure] at h
      obtain ⟨slot, a, hslot, rfl, rfl⟩ := h
      have htakes := enumeration_takes hinv hd hslot
      exact ⟨htakes.toKeeps, .declared hfind (hname ▸ htakes.taken)⟩
    | typeAlias d =>
      simp only [yields_bind] at h
      obtain ⟨found, a, hfound, h⟩ := h
      obtain ⟨hkeeps, htaken, -⟩ := aliasSlot?_keeps hrec hclosed hinv hd hfound
      cases found with
      | some slot =>
        obtain ⟨rfl, rfl⟩ := yields_pure.mp h
        exact ⟨hkeeps, .declared hfind (hname ▸ htaken slot rfl)⟩
      | none => exact absurd h yields_failFor

theorem keywordType_keeps (hinv : Inv ctx asked U r) {site : Site} {word : TypeKeyword}
    {raw : Option String} (h : Yields (keywordType word raw owner) r t r') :
    Keeps ctx asked U r r' ∧ Denotes ctx.scope r'.keys ⟨site, .keyword word⟩ raw t := by
  unfold keywordType at h
  split at h
  · obtain ⟨rfl, rfl⟩ := yields_pure.mp h
    exact ⟨.refl hinv, .keyword (.inl rfl)⟩
  · obtain ⟨rfl, rfl⟩ := yields_pure.mp h
    exact ⟨.refl hinv, .keyword (.inr (.inl rfl))⟩
  · obtain ⟨rfl, rfl⟩ := yields_pure.mp h
    exact ⟨.refl hinv, .keyword (.inr (.inr rfl))⟩
  · exact absurd h yields_failFor

/-- **One step** resolves types if the nested resolutions do. -/
theorem resolveStep_isResolver (hclosed : IsClosed ctx asked) (hrec : IsResolver ctx asked rec) :
    IsResolver ctx asked (resolveStep ctx rec) := by
  rintro ⟨site, e⟩ raw owner U r t r' hinv hasked h
  cases e with
  | keyword word => exact keywordType_keeps hinv h
  | literal value =>
    obtain ⟨rfl, rfl⟩ := yields_pure.mp h
    exact ⟨.refl hinv, .literal⟩
  | array element =>
    have hadmits : Admits ctx asked ⟨site.child 0, element⟩ :=
      hclosed.nested hasked (List.mem_singleton_self _)
    obtain ⟨hkeeps, r, ⟨inner, hstrips, hdenotes⟩, rfl⟩ := array_keeps hrec hinv hadmits h
    exact ⟨hkeeps, .array hstrips hdenotes⟩
  | object ps position =>
    simp only [resolveStep, yields_bind, yields_pure] at h
    obtain ⟨slot, a, hslot, rfl, rfl⟩ := h
    have htakes := inlineObject_takes hrec hclosed hinv hasked hslot
    exact ⟨htakes.toKeeps, .object htakes.taken⟩
  | union es =>
    simp only [resolveStep, yields_bind, yields_pure] at h
    obtain ⟨slot, a, hslot, rfl, rfl⟩ := h
    have htakes := inlineUnion_takes hrec hclosed hinv hasked hslot
    exact ⟨htakes.toKeeps, .union htakes.taken⟩
  | reference name arguments position => exact reference_keeps hrec hclosed hinv hasked h
  | function parameters result => exact absurd h yields_failFor

end Step

/-- **Resolution** yields what types stand for, however deep it goes. -/
theorem resolve_isResolver (hclosed : IsClosed ctx asked) (depth : Nat) :
    IsResolver ctx asked (resolve ctx depth) := by
  induction depth with
  | zero => exact fun _ _ h => absurd h yields_throw
  | succ depth ih => exact resolveStep_isResolver hclosed ih

/-! ### Asking for declarations -/

/-- The slot of a declaration, if it has one. -/
def slotFor (ctx : ExtractionContext) (rec : Resolver) : Declaration → Extract (Option Nat)
  | .interface d => some <$> interface ctx rec d
  | .enumeration d => some <$> enumeration d
  | .typeAlias d => aliasSlot? ctx rec d

/-- To resolve a declaration is to ask for its slot. -/
theorem exists_yields_slotFor {rec : Resolver} {d : Declaration}
    (h : Yields (declare ctx rec d) r u r') : ∃ found, Yields (slotFor ctx rec d) r found r' := by
  cases d with
  | interface d =>
    obtain ⟨slot, hslot, -⟩ := yields_map.mp h
    exact ⟨some slot, yields_map.mpr ⟨slot, hslot, rfl⟩⟩
  | enumeration d =>
    obtain ⟨slot, hslot, -⟩ := yields_map.mp h
    exact ⟨some slot, yields_map.mpr ⟨slot, hslot, rfl⟩⟩
  | typeAlias d =>
    obtain ⟨found, hfound, -⟩ := yields_map.mp h
    exact ⟨found, hfound⟩

/-- **Declarations** that have a slot get it, and no others. -/
theorem slotFor_keeps (hclosed : IsClosed ctx asked) (depth : Nat) (hinv : Inv ctx asked U r)
    {d : Declaration} (hd : d ∈ ctx.scope) {found : Option Nat}
    (h : Yields (slotFor ctx (resolve ctx depth) d) r found r') :
    Keeps ctx asked U r r' ∧
      (∀ slot, found = some slot → slotIn r'.keys (.declared d.name) = some slot) ∧
      (found = none → hasSlot ctx.scope d = false) := by
  have hrec : IsResolver ctx asked (resolve ctx depth) := resolve_isResolver hclosed depth
  cases d with
  | interface d =>
    obtain ⟨slot, hslot, rfl⟩ := yields_map.mp h
    have htakes := interface_takes hrec hclosed hinv hd hslot
    refine ⟨htakes.toKeeps, fun _ heq => Option.some.inj heq ▸ htakes.taken, fun hnone => ?_⟩
    exact absurd hnone (Option.some_ne_none _)
  | enumeration d =>
    obtain ⟨slot, hslot, rfl⟩ := yields_map.mp h
    have htakes := enumeration_takes hinv hd hslot
    refine ⟨htakes.toKeeps, fun _ heq => Option.some.inj heq ▸ htakes.taken, fun hnone => ?_⟩
    exact absurd hnone (Option.some_ne_none _)
  | typeAlias d => exact aliasSlot?_keeps hrec hclosed hinv hd h

end Extraction

end DeclaredSchema
