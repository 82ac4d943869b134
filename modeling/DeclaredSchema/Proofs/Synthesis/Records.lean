import DeclaredSchema.Proofs.Synthesis.Members

/-!
# Types that are underway

A record or a union of records is noted before it is filled in. Its name is claimed for it first, so
nothing has it yet (`start_yields`). Once all that it mentions has been made, its definition is
filled in, and the slot is settled (`finish_makes`). What happens in between may start and finish
other types, and may use the name of this one.

## Main definitions

* `also` — the slots that are underway, with one more
* `CanName` — a name for a new type

## Main results

* `start_yields`, `finish_makes` — the two ends of the making of a type
* `recordType_makes` — records
-/

namespace DeclaredSchema

namespace Synthesis

section Step

variable {g : Graph} {listed : List TypeRef} {options : CompileOptions} {U : Nat → Mode → Prop}
  {d d' : Draft} {u : PUnit} {visit : Nat → Mode → Synth SchemaType} {slot : Nat} {mode : Mode}
  {s : Shape} {n : String} {definition : TypeDefinition}

/-! ### Starting and finishing a type -/

/-- The slots that are underway, with one more. -/
def also (U : Nat → Mode → Prop) (slot : Nat) (mode : Mode) (slot' : Nat) (mode' : Mode) : Prop :=
  U slot' mode' ∨ slot' = slot ∧ mode' = mode

/-- A name that can be given to a shape, which was found between `d₀` and `d`: an invented one is
the latest, it is the only one that was invented in between, and nothing has it yet. -/
structure CanName (g : Graph) (d₀ d : Draft) (mode : Mode) (s : Shape) (n : String) : Prop where
  claims : d.claims = d₀.claims
  made : d.made = d₀.made
  invented : d₀.invented ≤ d.invented
  name : IsNameOf mode s n
  number : ∀ k, IsNumbered mode s n k →
    k ≤ d.invented ∧ ∀ slot mode, ¬ HasNumber g d slot mode k
  issued : ∀ k, d₀.invented < k → k ≤ d.invented → IsNumbered mode s n k

theorem CanName.of_ownName? (d : Draft) (h : ownName? mode s = some n) : CanName g d d mode s n where
  claims := rfl
  made := rfl
  invented := Nat.le_refl _
  name := .inl h
  number k hk := by
    rw [hk.1] at h
    cases h
  issued _ hlt hle := absurd hlt (Nat.not_lt.mpr hle)

theorem CanName.recorded {d₀ : Draft} (h : CanName g d₀ d mode s n) (event : Event) :
    CanName g d₀ { d with latestEvents := event :: d.latestEvents } mode s n :=
  ⟨h.claims, h.made, h.invented, h.name, h.number, h.issued⟩

/-- Inventing a name for a shape that has none. -/
theorem invent_yields {start : String} (hinv : Inv g options U d) (hnone : ownName? mode s = none)
    (hstem : stem mode s = start) (h : Yields (invent start) d n d') :
    Inv g options U d' ∧ (∀ slot mode, d'.at? slot mode = d.at? slot mode) ∧
      CanName g d d' mode s n := by
  obtain ⟨rfl, rfl⟩ := yields_invent.mp h
  subst hstem
  have hlatest : IsNumbered mode s (stem mode s ++ toString (d.invented + 1)) (d.invented + 1) :=
    ⟨hnone, Nat.succ_pos _, rfl⟩
  refine ⟨hinv.congr rfl rfl rfl (Nat.le_succ _), fun _ _ => rfl, rfl, rfl, Nat.le_succ _,
    .inr ⟨_, hlatest⟩, fun k hk => ?_, fun k hlt hle => ?_⟩
  · obtain rfl := hk.unique hlatest
    refine ⟨Nat.le_refl _, fun slot mode hgiven => ?_⟩
    exact absurd (hinv.numbers hgiven) (Nat.not_succ_le_self _)
  · rwa [Nat.le_antisymm hle hlt]

/-- A step that gives the name has gone on from before the name was found. -/
theorem CanName.grows {d₀ : Draft} (h : CanName g d₀ d mode s n) (hs : g.shapeAt? slot = some s)
    (hgrows : Grows g listed options d d') (hat : d'.at? slot mode = some n) :
    Grows g listed options d₀ d' where
  claims := h.claims ▸ hgrows.claims
  made := h.made ▸ hgrows.made
  invented := Nat.le_trans h.invented hgrows.invented
  origin := by
    have htypes : d.types = d₀.types := congrArg (List.map Claim.type) h.claims
    rw [← htypes]
    exact hgrows.origin
  issued k hlt hle := by
    by_cases hk : k ≤ d.invented
    · exact ⟨slot, mode, n, s, hat, hs, h.issued k hlt hk⟩
    · exact hgrows.issued k (Nat.not_le.mp hk) hle

/-- Claiming a name for a type that changes with the mode, and noting it. -/
theorem start_yields {d₀ : Draft} {label : String} (hinv : Inv g options U d)
    (hr : Reaches g listed (.node slot) mode) (hs : g.shapeAt? slot = some s)
    (hmodeless : isModeless s = false) (hnone : d.at? slot mode = none)
    (hname : CanName g d₀ d mode s n) (hscalar : definition.isScalar = false)
    {e : Draft} (hclaim : Yields (claim ⟨n, s.doc.map .ofString, definition⟩ label) d u e)
    (hnote : d' = noted e slot [mode] n) :
    Inv g options (also U slot mode) d' ∧ Grows g listed options d₀ d' ∧
      n ∉ d₀.types.map NamedType.name ∧ d'.at? slot mode = some n ∧
      ⟨n, s.doc.map .ofString, definition⟩ ∈ d'.types := by
  have hdate : definition ≠ .scalar .date := by
    rintro rfl
    cases hscalar
  obtain ⟨hpublic, hfree, rfl⟩ := yields_claim_of_ne hdate hclaim
  subst hnote
  obtain ⟨-, hnew⟩ := Draft.free_of_owner? hfree
  have hinv' := hinv.claim label hpublic hfree
  have hmem : (⟨n, s.doc.map .ofString, definition⟩ : NamedType) ∈ Draft.types { d with
      claims := d.claims ++ [⟨⟨n, s.doc.map .ofString, definition⟩, label⟩] } := by
    simp [Draft.types]
  have hnone' : ∀ mode' ∈ [mode], d.at? slot mode' = none := by
    intro mode' hmode
    rwa [List.mem_singleton.mp hmode]
  have hat : (noted { d with
      claims := d.claims ++ [⟨⟨n, s.doc.map .ofString, definition⟩, label⟩] } slot [mode] n).at?
        slot mode = some n :=
    (at?_noted hnone').mpr (.inr ⟨rfl, List.mem_singleton_self _, rfl⟩)
  have htypes : d₀.types = d.types := congrArg (List.map Claim.type) hname.claims.symm
  refine ⟨hinv'.note hs .inl hnone' ?_ ?_ ?_ ?_ ?_ ?_, ?_, htypes ▸ hnew, hat, hmem⟩
  · intro mode' hmode
    rw [List.mem_singleton.mp hmode]
    exact ⟨hname.name, _, hmem, rfl, fun _ => hscalar, slot, s, hs, .inl rfl, rfl⟩
  · intro h
    rw [hmodeless] at h
    cases h
  · intro _ a ha b hb
    rw [List.mem_singleton.mp ha, List.mem_singleton.mp hb]
  · -- nothing has the name yet
    intro slot' mode' s' hn' _
    obtain ⟨_, -, hnamed⟩ := hinv.named hn'
    obtain ⟨v, hv, rfl, -⟩ := hnamed.entry
    exact absurd (List.mem_map_of_mem hv) hnew
  · intro mode' hmode hunder
    exact absurd (.inr ⟨rfl, List.mem_singleton.mp hmode⟩) hunder
  · intro mode' hmode k hk
    rw [List.mem_singleton.mp hmode] at hk
    exact hname.number k hk
  · refine hname.grows hs (.of_claim rfl (List.prefix_append _ _) rfl hr ?_) hat
    rw [Draft.typeOf?_node, hat]
    rfl

/-- Filling in the definition of a type that was started. -/
theorem finish_makes {v : NamedType} (hnot : n ∉ d.types.map NamedType.name)
    (hinv : Inv g options (also U slot mode) d') (hgrows : Grows g listed options d d')
    (hs : g.shapeAt? slot = some s) (hat : d'.at? slot mode = some n) (hv : v ∈ d'.types)
    (hname : v.name = n)
    (hstart : v.definition = .object [] ∨ v.definition = .inputObject [] ∨
      v.definition = .union [])
    (hnew : definition.isScalar = false) (hobject : v.definition.isObject = definition.isObject)
    (hwell : WellFormed g mode s)
    (hknown : ∀ r mode', Mentions g slot mode r mode' → ∃ t, d'.typeOf? options mode' r = some t)
    (hdef : definition = definitionImage g (d'.image options) mode s)
    (halternatives : ∀ name doc alternatives, s = .union name doc alternatives →
      isTexts alternatives = false → ∀ r ∈ alternatives,
        ∃ n', d'.typeOf? options .output r = some (.named n') ∧ d'.isObject n' = true) :
    Makes g listed options U d (d'.define n definition) (.node slot) mode (.named n) := by
  have hself : ∀ w ∈ d'.types, w.name = n → w = v := fun w hw hwn =>
    Draft.type_unique hinv.nodup hw hv (hwn.trans hname.symm)
  have hold : ∀ w ∈ d'.types, w.name = n → w.definition.isScalar = false := by
    intro w hw hwn
    rw [hself w hw hwn]
    rcases hstart with h | h | h <;> rw [h] <;> rfl
  have hobject' : ∀ w ∈ d'.types, w.name = n → w.definition.isObject = definition.isObject :=
    fun w hw hwn => hself w hw hwn ▸ hobject
  have hsettled : Settled g options (d'.define n definition) slot mode s n := by
    refine ⟨hwell, ?_, ?_, ?_⟩
    · intro r mode' hr
      rw [Draft.typeOf?_define hold hnew]
      exact hknown r mode' hr
    · subst hname
      refine ⟨_, Draft.mem_types_define_self hv, rfl, ?_⟩
      rw [Draft.image_define hold hnew, ← hdef]
    · intro name doc alternatives hunion htexts r hr
      rw [Draft.typeOf?_define hold hnew]
      obtain ⟨n', hn', hn⟩ := halternatives name doc alternatives hunion htexts r hr
      exact ⟨n', hn', (Draft.isObject_define hobject' n').trans hn⟩
  refine ⟨hinv.define id hs hat hv hname hstart hnew hobject hsettled,
    hgrows.define hnot hold hnew, ?_⟩
  rw [Draft.typeOf?_node, Draft.at?_define, hat]
  rfl

/-! ### Records -/

/-- What a record mentions is known when its fields are. -/
theorem known_of_isField {ms : List Member} (hs : g.shapeAt? slot = some s)
    (hms : s.members? = some ms) (h : ∀ m ∈ visible ms, IsField g options d m) {r : TypeRef}
    {mode' : Mode} (hr : Mentions g slot .output r mode') :
    ∃ t, d.typeOf? options mode' r = some t := by
  obtain ⟨m, hm, ⟨rfl, rfl⟩ | ⟨-, rfl, a, ha, rfl⟩⟩ := hr.of_members? hs hms
  · exact (h m hm).2.1
  · exact ((h m hm).2.2 a ha).2

theorem known_of_isArgument {ms : List Member} (hs : g.shapeAt? slot = some s)
    (hms : s.members? = some ms) (h : ∀ m ∈ visible ms, IsArgument options d m) {r : TypeRef}
    {mode' : Mode} (hr : Mentions g slot .input r mode') :
    ∃ t, d.typeOf? options mode' r = some t := by
  obtain ⟨m, hm, ⟨rfl, rfl⟩ | ⟨hmode, -⟩⟩ := hr.of_members? hs hms
  · exact (h m hm).2
  · cases hmode

/-- A record whose members can be fields is well-formed. -/
theorem wellFormed_of_members? {ms : List Member} (hms : s.members? = some ms)
    (hne : counted ms ≠ []) (hfields : ∀ m ∈ visible ms, isPublicName m.name = true)
    (harguments : mode = .output → ∀ m ∈ visible ms, ∀ a ∈ visible (argumentMembers g m),
      isPublicName a.name = true) : WellFormed g mode s where
  nonempty ms' hms' := by
    rw [hms, Option.some.injEq] at hms'
    exact hms' ▸ hne
  fields ms' hms' := by
    rw [hms, Option.some.injEq] at hms'
    exact hms' ▸ hfields
  arguments hmode ms' hms' := by
    rw [hms, Option.some.injEq] at hms'
    exact hms' ▸ harguments hmode
  inputUnion _ name doc alternatives hunion := by
    subst hunion
    cases hms
  values name doc members henum := by
    subst henum
    cases hms

theorem recordType_makes (hvisit : Visits g listed options visit) {d₀ : Draft} {ms : List Member}
    {label : String} {t : SchemaType} (hinv : Inv g options U d)
    (hr : Reaches g listed (.node slot) mode) (hs : g.shapeAt? slot = some s)
    (hms : s.members? = some ms) (hnone : d.at? slot mode = none)
    (hname : CanName g d₀ d mode s n)
    (h : Yields (recordType g options visit slot mode n s.doc ms label) d t d') :
    Makes g listed options U d₀ d' (.node slot) mode t := by
  have hmodeless := isModeless_of_members? hms
  have hunion : ∀ name doc alternatives, s = .union name doc alternatives → False := by
    rintro name doc alternatives rfl
    cases hms
  simp only [recordType, yields_bind, yields_named] at h
  obtain ⟨_, _, ⟨-, rfl⟩, h⟩ := h
  cases mode with
  | input =>
    simp only [yields_bind, yields_note] at h
    obtain ⟨_, e, hclaim, _, e', hnote, vs, e'', hvs, h⟩ := h
    obtain ⟨hinv', hgrows, hnot, hat, hmem⟩ :=
      start_yields hinv hr hs hmodeless hnone hname rfl hclaim hnote
    obtain ⟨hinv'', hgrows', hall, rfl⟩ :=
      inputValues_makes hvisit (fun m hm => hr.mention (.member hs hms hm)) hinv' hvs
    cases hempty : ((counted ms).map (argumentImage (e''.image options))).isEmpty with
    | true => simp [hempty] at h
    | false =>
      simp only [hempty, Bool.false_eq_true, if_false, yields_bind, yields_modify,
        yields_pure] at h
      obtain ⟨_, _, rfl, rfl, rfl⟩ := h
      refine finish_makes hnot hinv'' (hgrows.trans hgrows') hs (hgrows'.at? hat)
        (hgrows'.mem_types hmem) rfl (.inr (.inl rfl)) rfl rfl ?_ ?_ ?_ ?_
      · refine wellFormed_of_members? hms ?_ (fun m hm => (hall m hm).1) (fun hmode => ?_)
        · rintro hnil
          rw [hnil] at hempty
          cases hempty
        · cases hmode
      · exact fun r mode' hmention => known_of_isArgument hs hms hall hmention
      · rw [definitionImage_of_members? hms]
        rfl
      · exact fun name doc alternatives h => (hunion _ _ _ h).elim
  | output =>
    simp only [yields_bind, yields_note] at h
    obtain ⟨_, e, hclaim, _, e', hnote, fs, e'', hfs, h⟩ := h
    obtain ⟨hinv', hgrows, hnot, hat, hmem⟩ :=
      start_yields hinv hr hs hmodeless hnone hname rfl hclaim hnote
    obtain ⟨hinv'', hgrows', hall, rfl⟩ :=
      outputFields_makes hvisit (fun m hm => ⟨hr.mention (.member hs hms hm),
        fun a ha => hr.mention (.argument hs hms hm ha)⟩) hinv' hfs
    cases hempty : ((counted ms).map (fieldImage g (e''.image options))).isEmpty with
    | true => simp [hempty] at h
    | false =>
      simp only [hempty, Bool.false_eq_true, if_false, yields_bind, yields_modify,
        yields_pure] at h
      obtain ⟨_, _, rfl, rfl, rfl⟩ := h
      refine finish_makes hnot hinv'' (hgrows.trans hgrows') hs (hgrows'.at? hat)
        (hgrows'.mem_types hmem) rfl (.inl rfl) rfl rfl ?_ ?_ ?_ ?_
      · refine wellFormed_of_members? hms ?_ (fun m hm => (hall m hm).1)
          (fun _ m hm a ha => ((hall m hm).2.2 a ha).1)
        rintro hnil
        rw [hnil] at hempty
        cases hempty
      · exact fun r mode' hmention => known_of_isField hs hms hall hmention
      · rw [definitionImage_of_members? hms]
        rfl
      · exact fun name doc alternatives h => (hunion _ _ _ h).elim

end Step

end Synthesis

end DeclaredSchema
