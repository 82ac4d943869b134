import DeclaredSchema.Proofs.Extraction.Moves

/-!
# Default values and finished types

A default value is checked when its member is resolved, by the table as it stands then. Whatever the
type of the member is, it is complete at that moment, unless it is a union that is underway: of such
a union the check sees the alternatives so far. So a finished type admits its default values, or it
is a union that starts with texts, the value among them, and goes on with something else.

## Main definitions

* `Shape.OffersFirst` — the texts that a shape offers first
* `Fits` — a value was admitted by a type as it stood at some moment

## Main results

* `Moves.defaultsFit` — default values go on to fit
* `admits_default_iff_of_extract` — which defaults fit the finished types
-/

namespace DeclaredSchema

/-- The texts of `lead` are those that the shape offers, or the first of them. The alternatives of a
union that is underway are in reverse. -/
def Shape.OffersFirst (underway : Prop) (lead : List TypeRef) : Shape → Prop
  | .enumeration _ _ values => lead = values
  | .union _ _ types => (underway → lead <+: types.reverse) ∧ (¬underway → lead <+: types) ∧
      ∀ t ∈ lead, t.text?.isSome = true
  | _ => False

namespace Extraction

/-- The value fits what the type has been at some moment; `U` are the slots of unions underway. -/
def Fits (U : Nat → Prop) (g : Graph) : TypeRef → Literal → Prop
  | .primitive p, v => p.admits v = true
  | .node slot, v => ∃ d lead, g[slot]? = some d ∧ d.shape.OffersFirst (U slot) lead ∧
      isTextAmong (lead.map TypeRef.text?) v = true
  | _, _ => False

/-- All default values of a table fit. -/
def DefaultsFit (U : Nat → Prop) (g : Graph) : Prop :=
  ∀ d ∈ g, ∀ m ∈ d.shape.members, ∀ v, m.default = some v → Fits U g m.type v

/-- What a slot offers first it goes on to offer first. -/
def GoesOn (U U' : Nat → Prop) (g g' : Graph) : Prop :=
  ∀ {slot : Nat} {d : Descriptor} {lead : List TypeRef}, g[slot]? = some d → d.shape.OffersFirst (U slot) lead → lead ≠ [] →
    ∃ d' : Descriptor, g'[slot]? = some d' ∧ d'.shape.OffersFirst (U' slot) lead

variable {ctx : ExtractionContext} {U U' : Nat → Prop} {g g' : Graph} {r r' : Registry}
  {top : Option Nat} {slot : Nat} {t : TypeRef} {v : Literal} {f : Shape → Shape} {shape : Shape}
  {key : NodeKey}

theorem Fits.mono (hgoes : GoesOn U U' g g') (h : Fits U g t v) : Fits U' g' t v := by
  cases t with
  | primitive p => exact h
  | node slot =>
    obtain ⟨d, lead, hd, hlead, hv⟩ := h
    have hne : lead ≠ [] := by
      rintro rfl
      unfold isTextAmong at hv
      split at hv <;> cases hv
    obtain ⟨d', hd', hlead'⟩ := hgoes hd hlead hne
    exact ⟨d', lead, hd', hlead', hv⟩
  | array | untypedArray | date | foreign => exact h.elim

/-- What a table admits fits, whether the type is underway or not. -/
theorem fits_of_admits (h : g.admits t v = true) : Fits U g t v := by
  cases t with
  | primitive p => exact h
  | array | untypedArray | date | foreign => cases h
  | node slot =>
    cases hd : g[slot]? with
    | none => simp [Graph.admits, hd] at h
    | some d =>
      obtain ⟨id, shape⟩ := d
      simp only [Graph.admits, hd, Option.map_some] at h
      cases shape with
      | record | inlineRecord => cases h
      | enumeration name doc values => exact ⟨_, values, hd, rfl, h⟩
      | union name doc types =>
        rw [Bool.and_eq_true, List.all_map, List.all_eq_true] at h
        by_cases hslot : U slot
        · refine ⟨_, types.reverse, hd, ⟨fun _ => List.prefix_refl _, fun hnot => absurd hslot hnot,
            fun t ht => h.1 t (List.mem_reverse.mp ht)⟩, ?_⟩
          rw [← h.2, isTextAmong, isTextAmong, List.map_reverse]
          cases v.text? with
          | none => rfl
          | some text => simp
        · exact ⟨_, types, hd, ⟨fun hU => absurd hU hslot, fun _ => List.prefix_refl _, h.1⟩, h.2⟩

/-! ### What the moves keep -/

theorem mem_graph_update {d' : Descriptor} (h : d' ∈ (r.update slot f).graph) :
    d' ∈ r.graph ∨ ∃ d ∈ r.graph, d' = { d with shape := f d.shape } := by
  obtain ⟨i, hi⟩ := List.mem_iff_getElem?.mp h
  rw [getElem?_graph_update] at hi
  split at hi
  · obtain ⟨d, hd, rfl⟩ := Option.map_eq_some_iff.mp hi
    exact .inr ⟨d, List.mem_of_getElem? hd, rfl⟩
  · exact .inl (List.mem_of_getElem? hi)

/-- A new slot has no members yet. -/
theorem DefaultsFit.add (h : DefaultsFit U r.graph) (hnone : shape.members = [])
    (hU : ∀ i < r.graph.length, U' i ↔ U i) : DefaultsFit U' (r.add key shape).graph := by
  have hgoes : GoesOn U U' r.graph (r.add key shape).graph := by
    intro i d lead hd hlead _
    refine ⟨d, getElem?_of_isPrefix (List.prefix_append ..) hd, ?_⟩
    rwa [propext (hU i (List.getElem?_eq_some_iff.mp hd).1)]
  intro d hd m hm v hv
  rcases List.mem_append.mp hd with hd | hd
  · exact (h d hd m hm v hv).mono hgoes
  · obtain rfl := List.mem_singleton.mp hd
    rw [hnone] at hm
    cases hm

/-- A slot changes: its new members are checked, and it goes on with what it offers first. -/
theorem DefaultsFit.update (h : DefaultsFit U r.graph) (hU : ∀ i ≠ slot, U' i ↔ U i)
    (hmembers : ∀ (s : Shape) (m : Member), m ∈ (f s).members → m ∈ s.members ∨ IsChecked r.graph m)
    (hoffers : ∀ {d : Descriptor} {lead : List TypeRef}, r.graph[slot]? = some d →
      d.shape.OffersFirst (U slot) lead → lead ≠ [] →
      (f d.shape).OffersFirst (U' slot) lead) : DefaultsFit U' (r.update slot f).graph := by
  have hgoes : GoesOn U U' r.graph (r.update slot f).graph := by
    intro i d lead hd hlead hne
    rw [getElem?_graph_update, hd]
    by_cases hi : slot = i
    · subst hi
      exact ⟨_, if_pos rfl, hoffers hd hlead hne⟩
    · refine ⟨d, if_neg hi, ?_⟩
      rwa [propext (hU i (Ne.symm hi))]
  intro d' hd' m hm v hv
  refine Fits.mono hgoes ?_
  rcases mem_graph_update hd' with hd' | ⟨d, hd, rfl⟩
  · exact h d' hd' m hm v hv
  · rcases hmembers d.shape m hm with hm | hchecked
    · exact h d hd m hm v hv
    · exact fits_of_admits (hchecked v hv)

theorem members_of_mem_withMembers {ms : List Member} {s : Shape} {m : Member}
    (h : m ∈ (s.withMembers ms).members) : m ∈ s.members ∨ m ∈ ms := by
  cases s with
  | record | inlineRecord => exact .inr h
  | union | enumeration => exact .inl h

@[simp] theorem members_addAlternative (s : Shape) : (s.addAlternative t).members = s.members := by
  cases s <;> rfl

@[simp] theorem members_reverseAlternatives (s : Shape) :
    s.reverseAlternatives.members = s.members := by
  cases s <;> rfl

@[simp] theorem members_withValues (values : List TypeRef) (s : Shape) :
    (s.withValues values).members = s.members := by
  cases s <;> rfl

theorem not_offersFirst_of_members? {underway : Prop} {lead : List TypeRef} {ms : List Member}
    (h : shape.members? = some ms) : ¬shape.OffersFirst underway lead := by
  cases shape with
  | record | inlineRecord => exact id
  | union | enumeration => cases h

/-- An alternative is added behind those that a union offers first. -/
theorem offersFirst_addAlternative {underway : Prop} (hunder : underway) {lead : List TypeRef}
    (h : shape.OffersFirst underway lead) :
    (shape.addAlternative t).OffersFirst underway lead := by
  cases shape with
  | union name doc types =>
    refine ⟨fun _ => ?_, fun hnot => absurd hunder hnot, h.2.2⟩
    rw [List.reverse_cons]
    exact (h.1 hunder).trans (List.prefix_append ..)
  | record | inlineRecord | enumeration => exact h

/-- A union is complete when its alternatives are in order. -/
theorem offersFirst_reverseAlternatives {underway : Prop} (hunder : underway)
    {lead : List TypeRef} (h : shape.OffersFirst underway lead) :
    shape.reverseAlternatives.OffersFirst False lead := by
  cases shape with
  | union name doc types => exact ⟨False.elim, fun _ => h.1 hunder, h.2.2⟩
  | record | inlineRecord | enumeration => exact h

/-- **Default values go on to fit.** -/
theorem Moves.defaultsFit (h : Moves ctx top r r') {U : Nat → Prop}
    (htop : ∀ slot, top = some slot → U slot) (hU : ∀ slot, U slot → slot < r.graph.length)
    (hfit : DefaultsFit U r.graph) : DefaultsFit U r'.graph := by
  induction h generalizing U with
  | done => exact hfit
  | @record _ _ r₁ r₂ key shape ms h hempty hinner hsound _ ih ihinner =>
    have hlength := h.lengthens.length
    have hadd : DefaultsFit U (r₁.add key shape).graph :=
      (ih htop hU hfit).add (by rw [Shape.members, hempty, Option.getD_some]) fun _ _ => .rfl
    have hinnerfit := ihinner nofun (fun slot hslot => by
      rw [Registry.length_graph_add]
      exact Nat.lt_succ_of_lt (Nat.lt_of_lt_of_le (hU slot hslot) hlength)) hadd
    refine hinnerfit.update (fun _ _ => .rfl) (fun s m hm => ?_) fun hd hlead _ => ?_
    · exact (members_of_mem_withMembers hm).imp_right fun hm => (hsound m hm).checked
    · rw [hinner.lengthens.others nofun getElem?_graph_add] at hd
      cases hd
      exact absurd hlead (not_offersFirst_of_members? hempty)
  | @enumeration _ _ r₁ key name doc values h ih =>
    have hadd : DefaultsFit U (r₁.add key (.enumeration name doc [])).graph :=
      (ih htop hU hfit).add rfl fun _ _ => .rfl
    refine hadd.update (fun _ _ => .rfl) (fun s m hm => .inl ?_) fun hd hlead hne => ?_
    · rwa [members_withValues] at hm
    · rw [getElem?_graph_add] at hd
      cases hd
      exact absurd hlead hne
  | texts h ih => exact (ih htop hU hfit).add rfl fun _ _ => .rfl
  | @union _ _ r₁ r₂ key name doc h _ hinner ih ihinner =>
    have hlength := h.lengthens.length
    have hadd : DefaultsFit (also U r₁.graph.length) (r₁.add key (.union name doc [])).graph := by
      refine (ih htop hU hfit).add rfl fun i hi => ⟨fun hi' => ?_, .inl⟩
      exact hi'.resolve_right (Nat.ne_of_lt hi)
    have hinnerfit := ihinner (fun slot hslot => .inr (Option.some.inj hslot).symm)
      (fun slot hslot => by
        rw [Registry.length_graph_add]
        rcases hslot with hslot | rfl
        · exact Nat.lt_succ_of_lt (Nat.lt_of_lt_of_le (hU slot hslot) hlength)
        · exact Nat.lt_succ_self _) hadd
    refine hinnerfit.update (fun i hi => ⟨.inl, fun hi' => hi'.resolve_right hi⟩)
      (fun s m hm => .inl ?_) fun hd hlead _ => ?_
    · rwa [members_reverseAlternatives] at hm
    · have hnot : U r₁.graph.length = False := by
        refine propext ⟨fun hslot => ?_, False.elim⟩
        exact absurd (hU _ hslot) (Nat.not_lt.mpr hlength)
      rw [hnot]
      exact offersFirst_reverseAlternatives (.inr rfl) hlead
  | @alternative slot _ r₁ t h _ ih =>
    refine (ih htop hU hfit).update (fun _ _ => .rfl) (fun s m hm => .inl ?_) fun hd hlead _ => ?_
    · rwa [members_addAlternative] at hm
    · exact offersFirst_addAlternative (htop slot rfl) hlead

/-! ### Finished types -/

/-- Whether all values of a type are texts, if it is a union. -/
def IsTextual (g : Graph) (t : TypeRef) : Prop :=
  ∀ name doc types, g.shape? t = some (.union name doc types) → ∀ t' ∈ types, t'.text?.isSome = true

theorem isTextAmong_of_subset {texts texts' : List (Option String)} (hsub : texts ⊆ texts')
    (h : isTextAmong texts v = true) : isTextAmong texts' v = true := by
  unfold isTextAmong at h ⊢
  split at h
  · simp only [List.contains_iff_mem] at h ⊢
    exact hsub h
  · cases h

/-- A value that a complete type has admitted at some moment is still admitted, unless the type is a
union that has got other alternatives than texts since. -/
theorem admits_iff_of_fits (h : Fits (fun _ => False) g t v) :
    g.admits t v = true ↔ IsTextual g t := by
  cases t with
  | primitive p => exact iff_of_true h fun _ _ _ hshape => by cases hshape
  | array | untypedArray | date | foreign => exact h.elim
  | node slot =>
    obtain ⟨⟨i, shape⟩, lead, hd, hlead, hv⟩ := h
    rw [IsTextual, Graph.admits, Graph.shape?, hd, Option.map_some]
    cases shape with
    | record | inlineRecord => exact hlead.elim
    | enumeration name doc values =>
      obtain rfl := hlead
      exact iff_of_true hv fun _ _ _ hshape => by cases hshape
    | union name doc types =>
      have hmem : isTextAmong (types.map TypeRef.text?) v = true :=
        isTextAmong_of_subset (List.map_subset _ (hlead.2.1 id).subset) hv
      simp only [hmem, Bool.and_true, List.all_map, List.all_eq_true, Function.comp_apply]
      constructor
      · intro hall _ _ _ hshape
        cases hshape
        exact hall
      · exact fun hall => hall _ _ _ rfl

/-- **Defaults and finished types.** When extraction succeeds, the type of a member admits its
default value, unless it is a union of other things than texts. Such a union starts with texts, and
the value is one of them. -/
theorem admits_default_iff_of_extract {unionsAsEnums : Bool} {file : SourceUnit} {g : Graph}
    (h : extract unionsAsEnums file = .ok g) {d : Descriptor} (hd : d ∈ g) {m : Member}
    (hm : m ∈ d.shape.members) {v : Literal} (hv : m.default = some v) :
    (g.admits m.type v = true ↔ IsTextual g m.type) ∧
      ∀ name doc types, g.shape? m.type = some (.union name doc types) →
        ∃ lead, lead <+: types ∧ (∀ t ∈ lead, t.text?.isSome = true) ∧
          isTextAmong (lead.map TypeRef.text?) v = true := by
  obtain ⟨r, hrun, rfl⟩ := yields_of_extract h
  have hfit : DefaultsFit (fun _ => False) r.graph :=
    (moves_of_run hrun).defaultsFit nofun nofun fun d hd => absurd hd List.not_mem_nil
  have hfits := hfit d hd m hm v hv
  refine ⟨admits_iff_of_fits hfits, fun name doc types hshape => ?_⟩
  cases htype : m.type with
  | primitive | array | untypedArray | date | foreign => rw [htype] at hshape; cases hshape
  | node slot =>
    rw [htype] at hfits hshape
    obtain ⟨d', lead, hd', hlead, hv⟩ := hfits
    rw [Graph.shape?, hd', Option.map_some] at hshape
    rw [Option.some.inj hshape] at hlead
    exact ⟨lead, hlead.2.1 id, hlead.2.2, hv⟩

/-- A union of a text and of a record, whose member of the union's type has the text as its default.
-/
def selfDefaultFile : SourceUnit where
  imports := []
  declarations := [.typeAlias ⟨"U", .union [
    .literal (.str "a"),
    .object [⟨"x", .reference "Default" [.reference "U" [] ⟨1, 29⟩, .literal (.str "a")] ⟨1, 21⟩,
      false, false, none, ⟨1, 18⟩⟩] ⟨1, 16⟩], none, ⟨1, 6⟩⟩]

def selfDefaultMember : Member := ⟨"x", .node 0, none, false, false, some (.str "a"), none⟩

def selfDefaultTable : Graph := [
  ⟨1, .union (some "U") none [.primitive ⟨"string", "'a'", some (.str "a")⟩, .node 1]⟩,
  ⟨2, .inlineRecord "U, line 1" none [selfDefaultMember]⟩]

/-- The check of the default value sees the text alone, since the record is the alternative that is
being resolved. -/
theorem not_admits_selfDefault : extract false selfDefaultFile = .ok selfDefaultTable ∧
    selfDefaultMember.default = some (.str "a") ∧
    selfDefaultTable.admits selfDefaultMember.type (.str "a") = false :=
  ⟨by cbv, rfl, by decide⟩

/-- The same alternatives the other way round are refused. -/
example : (extract false { selfDefaultFile with declarations := [.typeAlias ⟨"U", .union [
    .object [⟨"x", .reference "Default" [.reference "U" [] ⟨1, 29⟩, .literal (.str "a")] ⟨1, 21⟩,
      false, false, none, ⟨1, 18⟩⟩] ⟨1, 16⟩, .literal (.str "a")], none, ⟨1, 6⟩⟩] }).isOk = false := by
  cbv

theorem admits_default_iff_of_extract_selfDefault :
    extract false selfDefaultFile = .ok selfDefaultTable ∧
    (selfDefaultTable.admits selfDefaultMember.type (.str "a") = true ↔
      IsTextual selfDefaultTable selfDefaultMember.type) ∧
    ∀ name doc types, selfDefaultTable.shape? selfDefaultMember.type =
      some (.union name doc types) → ∃ lead, lead <+: types ∧
        (∀ t ∈ lead, t.text?.isSome = true) ∧
        isTextAmong (lead.map TypeRef.text?) (.str "a") = true := by
  have h : extract false selfDefaultFile = .ok selfDefaultTable := by cbv
  have hd : ⟨2, .inlineRecord "U, line 1" none [selfDefaultMember]⟩ ∈ selfDefaultTable :=
    .tail _ (.head _)
  exact ⟨h, admits_default_iff_of_extract h hd (.head _) rfl⟩

end Extraction

end DeclaredSchema
