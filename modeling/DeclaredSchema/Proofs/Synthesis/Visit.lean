import DeclaredSchema.Proofs.Synthesis.Records

/-!
# What visits achieve

Unions and enumerations complete the kinds of descriptors, and with them a visit of a slot. Visits
are nested, so that they achieve what a step is meant to achieve is proved by induction on how deep
they may be nested.

## Main results

* `unionType_makes`, `enumType_makes` — the other kinds of descriptors
* `visitStep_makes` — one visit, if the visits nested in it achieve what they should
* `visit_makes` — visits
-/

namespace DeclaredSchema

namespace Synthesis

section Step

variable {g : Graph} {listed : List TypeRef} {options : CompileOptions} {U : Nat → Mode → Prop}
  {d d' : Draft} {u : PUnit} {visit : Nat → Mode → Synth SchemaType} {slot : Nat} {mode : Mode}
  {s : Shape} {n : String} {definition : TypeDefinition}

/-! ### Unions and enumerations -/

theorem unionMember_makes (hvisit : Visits g listed options visit) {label : String} {r : TypeRef}
    (hinv : Inv g options U d) (hr : Reaches g listed r .output)
    (h : Yields (unionMember g options visit label r) d n d') :
    Inv g options U d' ∧ Grows g listed options d d' ∧
      d'.typeOf? options .output r = some (.named n) ∧ d'.isObject n = true := by
  obtain ⟨t, e, ht, h⟩ := yields_bind.mp h
  have hmade := typeOf_makes hvisit hinv hr ht
  cases t with
  | named name =>
    cases hobject : e.isObject name with
    | true =>
      simp only [yields_get_bind, hobject, if_true, yields_pure] at h
      obtain ⟨rfl, rfl⟩ := h
      exact ⟨hmade.inv, hmade.grows, hmade.typeOf, hobject⟩
    | false => simp [hobject] at h
  | list element => exact absurd h yields_fail
  | nonNull inner => exact absurd h yields_fail

/-- The table knows the alternative as an object type. -/
def IsAlternative (options : CompileOptions) (d : Draft) (r : TypeRef) (n : String) : Prop :=
  d.typeOf? options .output r = some (.named n) ∧ d.isObject n = true

theorem unionMembers_makes (hvisit : Visits g listed options visit) {label : String}
    {alternatives : List TypeRef} {ns : List String} (hinv : Inv g options U d)
    (hr : ∀ r ∈ alternatives, Reaches g listed r .output)
    (h : Yields (unionMembers g options visit label alternatives) d ns d') :
    Inv g options U d' ∧ Grows g listed options d d' ∧
      List.Forall₂ (IsAlternative options d') alternatives ns := by
  refine Yields.mapM (Inv g options U) (Grows g listed options) (IsAlternative options) Grows.refl
    Grows.trans ?_ ?_ h hinv
  · intro d d' r n hgrows hn
    exact ⟨hgrows.typeOf? hn.1, hgrows.isObject hn.2⟩
  · intro r hmem d n d' hinv hn
    exact unionMember_makes hvisit hinv (hr r hmem) hn

theorem map_baseName_of_forall₂ {alternatives : List TypeRef} {ns : List String}
    (h : List.Forall₂ (IsAlternative options d) alternatives ns) :
    alternatives.map (fun r => (d.image options r .output).baseName) = ns := by
  induction h with
  | nil => rfl
  | cons hr _ ih =>
    rw [List.map_cons, ih, Draft.image_eq hr.1]
    rfl

theorem namedUnion_makes (hvisit : Visits g listed options visit) {d₀ : Draft}
    {name doc : Option String} {alternatives : List TypeRef} {label : String} {t : SchemaType}
    (hinv : Inv g options U d)
    (hr : Reaches g listed (.node slot) .output)
    (hs : g.shapeAt? slot = some (.union name doc alternatives))
    (htexts : isTexts alternatives = false) (hnone : d.at? slot .output = none)
    (hname : CanName g d₀ d .output (.union name doc alternatives) n)
    (h : Yields (do
      named n
      claim ⟨n, doc.map .ofString, .union []⟩ label
      note slot [.output] n
      let members ← unionMembers g options visit label alternatives
      modify fun d => d.define n (.union members)
      return .named n) d t d') :
    Makes g listed options U d₀ d' (.node slot) .output t := by
  simp only [yields_bind, yields_named, yields_note, yields_modify, yields_pure] at h
  obtain ⟨_, _, ⟨-, rfl⟩, _, e, hclaim, _, e', hnote, ns, e'', hns, _, _, rfl, rfl, rfl⟩ := h
  obtain ⟨hinv', hgrows, hnot, hat, hmem⟩ :=
    start_yields hinv hr hs htexts hnone hname rfl hclaim hnote
  obtain ⟨hinv'', hgrows', hall⟩ := unionMembers_makes hvisit hinv'
    (fun r hmem => hr.mention (.alternative hs htexts hmem)) hns
  have halternative : ∀ r ∈ alternatives, ∃ n', IsAlternative options e'' r n' := fun r hmem => by
    obtain ⟨n', -, hn'⟩ := exists_of_forall₂ hall hmem
    exact ⟨n', hn'⟩
  refine finish_makes hnot hinv'' (hgrows.trans hgrows') hs (hgrows'.at? hat)
    (hgrows'.mem_types hmem) rfl (.inr (.inr rfl)) rfl rfl ?_ ?_ ?_ ?_
  · constructor <;> simp [Shape.members?]
  · intro r mode' hmention
    cases hmention with
    | member hs' hms' =>
      rw [hs, Option.some.injEq] at hs'
      subst hs'
      cases hms'
    | argument hs' hms' =>
      rw [hs, Option.some.injEq] at hs'
      subst hs'
      cases hms'
    | alternative hs' _ hr' =>
      rw [hs, Option.some.injEq] at hs'
      cases hs'
      obtain ⟨n', hn', -⟩ := halternative r hr'
      exact ⟨_, hn'⟩
  · simp [definitionImage, htexts, map_baseName_of_forall₂ hall]
  · rintro _ _ _ hunion - r hr'
    cases hunion
    exact halternative r hr'

theorem objectUnion_makes (hvisit : Visits g listed options visit) {name doc : Option String}
    {alternatives : List TypeRef} {label : String} {t : SchemaType} (hinv : Inv g options U d)
    (hr : Reaches g listed (.node slot) .output)
    (hs : g.shapeAt? slot = some (.union name doc alternatives))
    (htexts : isTexts alternatives = false) (hnone : d.at? slot .output = none)
    (h : Yields (objectUnion g options visit slot name doc alternatives label) d t d') :
    Makes g listed options U d d' (.node slot) .output t := by
  have hown : ownName? .output (.union name doc alternatives) = givenName name := by
    simp [ownName?, htexts]
  cases hgiven : givenName name with
  | some n =>
    simp only [objectUnion, hgiven, pure_bind] at h
    exact namedUnion_makes hvisit hinv hr hs htexts hnone (.of_ownName? d (hown.trans hgiven)) h
  | none =>
    simp only [objectUnion, hgiven] at h
    obtain ⟨n, e, hinvent, h⟩ := yields_bind.mp h
    obtain ⟨hinv', hat, hname⟩ := invent_yields hinv (hown.trans hgiven) rfl hinvent
    exact namedUnion_makes hvisit hinv' hr hs htexts ((hat _ _).trans hnone) hname h

/-- The reason why a text can be a value of an enumeration. -/
def IsValue (r : TypeRef) : Prop :=
  ∃ text, r.text? = some text ∧ isName text = true ∧ text ∉ reservedValues

theorem yields_enumValues {label : String} {members : List TypeRef} {acc vs : List String}
    (h : Yields (enumValues g label members acc) d vs d') :
    d' = d ∧ (∀ r ∈ members, IsValue r) ∧
      vs = (members.filterMap TypeRef.text?).foldl (fun table x => insertByKey id x table) acc := by
  induction members generalizing acc with
  | nil =>
    obtain ⟨rfl, rfl⟩ := yields_pure.mp h
    exact ⟨rfl, fun r hr => absurd hr List.not_mem_nil, rfl⟩
  | cons r rest ih =>
    rw [enumValues] at h
    cases htext : r.text? with
    | none =>
      simp only [htext] at h
      exact absurd h yields_fail
    | some text =>
      simp only [htext, yields_ite] at h
      rcases h with ⟨-, h⟩ | ⟨hvalid, h⟩
      · exact absurd h yields_fail
      · obtain ⟨rfl, hrest, rfl⟩ := ih h
        have hvalid : isName text = true ∧ text ∉ reservedValues := by simpa using hvalid
        refine ⟨rfl, fun r' hr' => ?_, ?_⟩
        · rcases List.mem_cons.mp hr' with rfl | hr'
          · exact ⟨text, htext, hvalid⟩
          · exact hrest r' hr'
        · rw [List.filterMap_cons_some htext, List.foldl_cons]

/-- Nothing is mentioned by what does not change with the mode. -/
theorem not_mentions_of_isModeless (hs : g.shapeAt? slot = some s) (hmodeless : isModeless s = true)
    {r : TypeRef} {mode' : Mode} : ¬ Mentions g slot mode r mode' := by
  intro h
  cases h with
  | member hs' hms =>
    rw [hs, Option.some.injEq] at hs'
    subst hs'
    rw [isModeless_of_members? hms] at hmodeless
    cases hmodeless
  | argument hs' hms =>
    rw [hs, Option.some.injEq] at hs'
    subst hs'
    rw [isModeless_of_members? hms] at hmodeless
    cases hmodeless
  | alternative hs' htexts =>
    rw [hs, Option.some.injEq] at hs'
    subst hs'
    rw [isModeless, htexts] at hmodeless
    cases hmodeless

/-- Noting for both modes what does not change with the mode. -/
theorem noteBoth_makes (hinv : Inv g options U d) (hs : g.shapeAt? slot = some s)
    (hmodeless : isModeless s = true) (hnone : d.at? slot mode = none)
    (hnamed : ∀ mode, Named g d mode s n) (hwell : ∀ mode, WellFormed g mode s)
    (hentry : ∃ v ∈ d.types, v.name = n ∧ ∀ T mode, v.definition = definitionImage g T mode s)
    (hothers : ∀ {slot' mode' s'}, d.at? slot' mode' = some n → g.shapeAt? slot' = some s' →
      isModeless s' = true) :
    Inv g options U (noted d slot [.input, .output] n) ∧
      (noted d slot [.input, .output] n).at? slot mode = some n := by
  have hmem : ∀ mode : Mode, mode ∈ [Mode.input, .output] := by
    intro mode
    cases mode <;> decide
  have hnone' : ∀ mode' ∈ [Mode.input, .output], d.at? slot mode' = none := by
    intro mode' _
    cases hat : d.at? slot mode' with
    | none => rfl
    | some n' =>
      rw [hinv.modeless hat hs hmodeless mode] at hnone
      cases hnone
  refine ⟨hinv.note hs id hnone' (fun mode _ => hnamed mode) (fun _ => hmem) ?_ ?_ ?_ ?_,
    (at?_noted hnone').mpr (.inr ⟨rfl, hmem mode, rfl⟩)⟩
  · intro h
    rw [hmodeless] at h
    cases h
  · exact fun hat hs' => ⟨hmodeless, hothers hat hs'⟩
  · intro mode' _ _
    obtain ⟨v, hv, hname, hdef⟩ := hentry
    refine ⟨hwell mode', fun r mode'' hr => ?_, ⟨v, hv, hname, hdef _ _⟩, ?_⟩
    · exact absurd hr (not_mentions_of_isModeless hs hmodeless)
    · rintro name doc alternatives rfl htexts
      rw [isModeless, htexts] at hmodeless
      cases hmodeless
  · intro mode' _ k hk
    rw [hk.isModeless] at hmodeless
    cases hmodeless

theorem enumType_makes {name : String} {doc : Option String} {members : List TypeRef}
    {label : String} {t : SchemaType} (hinv : Inv g options U d)
    (hr : Reaches g listed (.node slot) mode)
    (hs : g.shapeAt? slot = some (.enumeration name doc members)) (hnone : d.at? slot mode = none)
    (h : Yields (enumType g slot name doc members label) d t d') :
    Makes g listed options U d d' (.node slot) mode t := by
  simp only [enumType, yields_bind, yields_named, yields_note, yields_pure] at h
  obtain ⟨vs, e, hvs, _, e', ⟨-, he⟩, _, e'', hclaim, _, _, rfl, rfl, rfl⟩ := h
  obtain ⟨hd, hvalues, rfl⟩ := yields_enumValues hvs
  rw [foldl_insertByKey, lastOfEach_id, he, hd] at hclaim
  obtain ⟨hpublic, hfree, rfl⟩ := yields_claim_of_ne (by simp) hclaim
  obtain ⟨-, hnew⟩ := Draft.free_of_owner? hfree
  have hmem : (⟨name, doc.map .ofString,
      .enumeration (members.filterMap TypeRef.text?).eraseDups⟩ : NamedType) ∈ Draft.types { d with
        claims := d.claims ++ [⟨⟨name, doc.map .ofString,
          .enumeration (members.filterMap TypeRef.text?).eraseDups⟩, label⟩] } := by
    simp [Draft.types]
  have hwell : ∀ mode, WellFormed g mode (.enumeration name doc members) := by
    intro mode
    constructor
    · rintro ms ⟨⟩
    · rintro ms ⟨⟩
    · rintro - ms ⟨⟩
    · rintro - _ _ _ ⟨⟩
    · rintro _ _ _ ⟨⟩
      exact hvalues
  have hothers : ∀ {slot' mode' s'}, d.at? slot' mode' = some name →
      g.shapeAt? slot' = some s' → isModeless s' = true := by
    intro slot' mode' s' hn' _
    obtain ⟨_, -, hnamed⟩ := hinv.named hn'
    obtain ⟨v, hv, rfl, -⟩ := hnamed.entry
    exact absurd (List.mem_map_of_mem hv) hnew
  obtain ⟨hinv', hat⟩ := noteBoth_makes (hinv.claim label hpublic hfree) hs rfl hnone
    (fun _ => ⟨.inl rfl, _, hmem, rfl, fun h => absurd h.symm Bool.false_ne_true, slot, _, hs,
      .inl rfl, rfl⟩)
    hwell ⟨_, hmem, rfl, fun _ _ => rfl⟩ hothers
  have htype : Draft.typeOf? options _ mode (.node slot) = some (.named name) :=
    Option.map_eq_some_iff.mpr ⟨name, hat, rfl⟩
  exact ⟨hinv', .of_claim rfl (List.prefix_append _ _) rfl hr htype, htype⟩

theorem wellFormed_of_isTexts {name doc : Option String} {alternatives : List TypeRef}
    (htexts : isTexts alternatives = true) : WellFormed g mode (.union name doc alternatives) := by
  constructor
  · rintro ms ⟨⟩
  · rintro ms ⟨⟩
  · rintro - ms ⟨⟩
  · rintro - _ _ _ ⟨⟩
    exact htexts
  · rintro _ _ _ ⟨⟩

/-- A scalar of texts that is new in the table, noted for a union of these texts. -/
theorem newTexts_makes {name doc : Option String} {alternatives : List TypeRef} {e : Draft}
    (hinv : Inv g options U d) (hr : Reaches g listed (.node slot) mode)
    (hs : g.shapeAt? slot = some (.union name doc alternatives))
    (htexts : isTexts alternatives = true) (hnone : d.at? slot mode = none)
    (hn : ownName? mode (.union name doc alternatives) = some n)
    (hnew : n ∉ d.types.map NamedType.name) {label : String} (hinv' : Inv g options U e)
    (hclaims : e.claims = d.claims ++ [⟨⟨n, doc.map .ofString,
      .scalar (.texts (alternatives.filterMap TypeRef.text?))⟩, label⟩])
    (hmade : e.made = d.made) (hinvented : e.invented = d.invented) :
    Makes g listed options U d (noted e slot [.input, .output] n) (.node slot) mode (.named n) := by
  have hmem : (⟨n, doc.map .ofString,
      .scalar (.texts (alternatives.filterMap TypeRef.text?))⟩ : NamedType) ∈ e.types := by
    simp [Draft.types, hclaims]
  have hat : ∀ slot mode, e.at? slot mode = d.at? slot mode := fun slot mode => by
    rw [Draft.at?, hmade, Draft.at?]
  have hmodeless : isModeless (.union name doc alternatives) = true := htexts
  have hnamed : ∀ mode, Named g e mode (.union name doc alternatives) n := fun mode =>
    ⟨.inl ((ownName?_of_isModeless hmodeless _ _).trans hn), _, hmem, rfl,
      fun h => absurd (h.symm.trans hmodeless) Bool.false_ne_true, slot, _, hs, .inl rfl, rfl⟩
  have hentry : ∀ T mode, (TypeDefinition.scalar (.texts (alternatives.filterMap
      TypeRef.text?))) = definitionImage g T mode (.union name doc alternatives) := fun T mode => by
    rw [definitionImage, if_pos htexts]
  have hothers : ∀ {slot' mode' s'}, e.at? slot' mode' = some n →
      g.shapeAt? slot' = some s' → isModeless s' = true := by
    intro slot' mode' s' hn' _
    obtain ⟨_, -, hnamed⟩ := hinv.named (hat slot' mode' ▸ hn')
    obtain ⟨v, hv, rfl, -⟩ := hnamed.entry
    exact absurd (List.mem_map_of_mem hv) hnew
  obtain ⟨hinv'', hat'⟩ := noteBoth_makes hinv' hs htexts ((hat _ _).trans hnone) hnamed
    (fun _ => wellFormed_of_isTexts htexts) ⟨_, hmem, rfl, hentry⟩ hothers
  have htype : Draft.typeOf? options (noted e slot [.input, .output] n) mode (.node slot) =
      some (.named n) := Option.map_eq_some_iff.mpr ⟨n, hat', rfl⟩
  refine ⟨hinv'', .of_claim hclaims ?_ hinvented hr htype, htype⟩
  rw [← hmade]
  exact List.prefix_append _ _

/-- The scalar of an earlier union of the same texts, noted for an unnamed one. -/
theorem oldTexts_makes {doc : Option String} {alternatives : List TypeRef}
    (hinv : Inv g options U d) (hs : g.shapeAt? slot = some (.union none doc alternatives))
    (htexts : isTexts alternatives = true) (hnone : d.at? slot mode = none)
    (hlookup : d.texts.lookup (alternatives.filterMap TypeRef.text?) = some n) :
    Makes g listed options U d (noted d slot [.input, .output] n) (.node slot) mode (.named n) := by
  obtain ⟨rfl, slot', doc', alternatives', hs', htexts', heq, hmem⟩ := hinv.texts hlookup
  have hmodeless : isModeless (.union none doc alternatives) = true := htexts
  have hnamed : ∀ mode, Named g d mode (.union none doc alternatives)
      (derivedName (alternatives.filterMap TypeRef.text?)) := fun mode =>
    ⟨.inl (by simp [ownName?, htexts, givenName]), _, hmem, rfl,
      fun h => absurd (h.symm.trans hmodeless) Bool.false_ne_true, slot', _, hs',
      .inr ⟨doc, alternatives, doc', alternatives', rfl, rfl, htexts, htexts', heq⟩, rfl⟩
  have hentry : ∀ T mode, (TypeDefinition.scalar (.texts (alternatives.filterMap
      TypeRef.text?))) = definitionImage g T mode (.union none doc alternatives) := fun T mode => by
    rw [definitionImage, if_pos htexts]
  have hothers : ∀ {slot' mode' s'},
      d.at? slot' mode' = some (derivedName (alternatives.filterMap TypeRef.text?)) →
      g.shapeAt? slot' = some s' → isModeless s' = true := by
    intro slot' mode' s' hn' hs'
    obtain ⟨_, hs'', hnamed⟩ := hinv.named hn'
    rw [hs', Option.some.injEq] at hs''
    subst hs''
    cases hmodeless : isModeless s' with
    | true => rfl
    | false =>
      -- a type that changes with the mode is no scalar, and the name is that of one
      obtain ⟨v, hv, hname, hscalar, -⟩ := hnamed.entry
      have hv' := Draft.type_unique hinv.nodup hv hmem hname
      rw [hv'] at hscalar
      cases hscalar hmodeless
  obtain ⟨hinv', hat⟩ := noteBoth_makes hinv hs htexts hnone hnamed
    (fun _ => wellFormed_of_isTexts htexts) ⟨_, hmem, rfl, hentry⟩ hothers
  exact ⟨hinv', .of_types_eq (extends_noted ..) rfl rfl, Option.map_eq_some_iff.mpr ⟨_, hat, rfl⟩⟩

theorem textScalar_makes {name doc : Option String} {alternatives : List TypeRef} {label : String}
    {t : SchemaType} (hinv : Inv g options U d) (hr : Reaches g listed (.node slot) mode)
    (hs : g.shapeAt? slot = some (.union name doc alternatives))
    (htexts : isTexts alternatives = true) (hnone : d.at? slot mode = none)
    (h : Yields (textScalar slot name doc (alternatives.filterMap TypeRef.text?) label) d t d') :
    Makes g listed options U d d' (.node slot) mode t := by
  have hown : ownName? mode (.union name doc alternatives) =
      some ((givenName name).getD (derivedName (alternatives.filterMap TypeRef.text?))) := by
    rw [ownName?, if_pos htexts]
  simp only [textScalar, yields_get_bind] at h
  cases name with
  | some text =>
    simp only [Option.isNone_some, Bool.false_eq_true, if_false,
      yields_bind, yields_named, yields_note, yields_pure] at h
    obtain ⟨_, e, ⟨-, rfl⟩, _, e', hclaim, _, _, ⟨rfl, rfl⟩, _, _, rfl, rfl, rfl⟩ := h
    obtain ⟨hpublic, hfree, rfl⟩ := yields_claim_of_ne (by simp) hclaim
    obtain ⟨-, hnew⟩ := Draft.free_of_owner? hfree
    exact newTexts_makes hinv hr hs htexts hnone hown hnew (hinv.claim label hpublic hfree) rfl rfl
      rfl
  | none =>
    cases hlookup : d.texts.lookup (alternatives.filterMap TypeRef.text?) with
    | some n =>
      simp only [Option.isNone_none, if_true, hlookup, yields_bind,
        yields_note, yields_pure] at h
      obtain ⟨_, _, ⟨rfl, rfl⟩, _, _, rfl, rfl, rfl⟩ := h
      exact oldTexts_makes hinv hs htexts hnone hlookup
    | none =>
      simp only [Option.isNone_none, if_true, hlookup, yields_bind,
        yields_named, yields_modify, yields_note, yields_pure] at h
      obtain ⟨_, e, ⟨-, rfl⟩, _, e', hclaim, _, _, rfl, _, _, ⟨rfl, rfl⟩, _, _, rfl, rfl, rfl⟩ := h
      obtain ⟨hpublic, hfree, rfl⟩ := yields_claim_of_ne (by simp) hclaim
      obtain ⟨-, hnew⟩ := Draft.free_of_owner? hfree
      have hinv' := (hinv.claim label hpublic hfree).text hs htexts (by simp [Draft.types, givenName])
      exact newTexts_makes hinv hr hs htexts hnone hown hnew hinv' rfl rfl rfl

theorem unionType_makes (hvisit : Visits g listed options visit) {name doc : Option String}
    {alternatives : List TypeRef} {label : String} {t : SchemaType} (hinv : Inv g options U d)
    (hr : Reaches g listed (.node slot) mode)
    (hs : g.shapeAt? slot = some (.union name doc alternatives)) (hnone : d.at? slot mode = none)
    (h : Yields (unionType g options visit slot mode name doc alternatives label) d t d') :
    Makes g listed options U d d' (.node slot) mode t := by
  unfold unionType at h
  rw [yields_ite] at h
  rcases h with ⟨htexts, h⟩ | ⟨htexts, h⟩
  · exact textScalar_makes hinv hr hs htexts hnone h
  · have htexts : isTexts alternatives = false := by
      rw [isTexts]
      simpa using htexts
    cases mode with
    | input => exact absurd h yields_fail
    | output =>
      simp only [yields_ite] at h
      rcases h with ⟨-, h⟩ | ⟨-, h⟩
      · exact absurd h yields_fail
      · exact objectUnion_makes hvisit hinv hr hs htexts hnone h

/-! ### Slots -/

theorem makeType_makes (hvisit : Visits g listed options visit) {descriptor : Descriptor}
    {t : SchemaType} (hinv : Inv g options U d) (hr : Reaches g listed (.node slot) mode)
    (hs : g[slot]? = some descriptor) (hnone : d.at? slot mode = none)
    (h : Yields (makeType g options visit slot mode descriptor) d t d') :
    Makes g listed options U d d' (.node slot) mode t := by
  have hs : g.shapeAt? slot = some descriptor.shape := Option.map_eq_some_iff.mpr ⟨_, hs, rfl⟩
  unfold makeType at h
  cases hshape : descriptor.shape with
  | record name doc ms =>
    rw [hshape] at h hs
    exact recordType_makes hvisit hinv hr hs rfl hnone (.of_ownName? d rfl) h
  | inlineRecord location doc ms =>
    rw [hshape] at h hs
    have hown : ownName? mode (.inlineRecord location doc ms) =
        (typenameOf ms).map fun text => text ++ ending mode := by
      rw [ownName?, typenameOf_eq]
    simp only [inlineName] at h
    cases htypename : typenameOf ms with
    | some text =>
      simp only [htypename, pure_bind] at h
      rw [htypename] at hown
      exact recordType_makes hvisit hinv hr hs rfl hnone (.of_ownName? d hown) h
    | none =>
      simp only [htypename, bind_assoc] at h
      rw [htypename] at hown
      obtain ⟨n, e, hinvent, h⟩ := yields_bind.mp h
      obtain ⟨hinv', hat, hname⟩ := invent_yields hinv hown rfl hinvent
      simp only [yields_bind, yields_record, yields_pure] at h
      obtain ⟨_, _, rfl, _, _, ⟨rfl, rfl⟩, h⟩ := h
      exact recordType_makes hvisit (hinv'.recorded _) hr hs rfl ((hat _ _).trans hnone)
        (hname.recorded _) h
  | union name doc alternatives =>
    rw [hshape] at h hs
    exact unionType_makes hvisit hinv hr hs hnone h
  | enumeration name doc members =>
    rw [hshape] at h hs
    exact enumType_makes hinv hr hs hnone h

theorem visitStep_makes (hvisit : Visits g listed options visit) :
    Visits g listed options (visitStep g options visit) := by
  intro slot mode U d t d' hinv hr h
  simp only [visitStep, yields_get_bind] at h
  cases hat : d.at? slot mode with
  | some n =>
    have hlookup : d.made.lookup (slot, mode) = some n := hat
    simp only [hlookup, yields_bind, yields_record, yields_pure] at h
    obtain ⟨_, _, rfl, rfl, rfl⟩ := h
    exact ⟨hinv.recorded _, .recorded d _, Option.map_eq_some_iff.mpr ⟨n, hat, rfl⟩⟩
  | none =>
    have hlookup : d.made.lookup (slot, mode) = none := hat
    simp only [hlookup] at h
    cases hs : g[slot]? with
    | none =>
      simp only [hs] at h
      exact absurd h yields_fail
    | some descriptor =>
      simp only [hs, yields_bind, yields_start] at h
      obtain ⟨_, _, rfl, h⟩ := h
      have hmade := makeType_makes hvisit (hinv.started slot mode) hr hs hat h
      exact ⟨hmade.inv, (Grows.started d slot mode).trans hmade.grows, hmade.typeOf⟩

end Step

/-- **Visits.** However deep visits may be nested, one that succeeds makes the type of its slot and
keeps the invariant. -/
theorem visit_makes (depth : Nat) : Visits g listed options (visit g options depth) := by
  induction depth with
  | zero =>
    intro slot mode U d t d' _ _ h
    exact absurd h yields_throw
  | succ depth ih => exact visitStep_makes ih

end Synthesis

end DeclaredSchema
