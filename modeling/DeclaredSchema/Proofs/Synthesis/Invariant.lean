import DeclaredSchema.Proofs.Synthesis.Draft

/-!
# What holds while a schema is made

A visit starts from a draft in which some slots are underway: their types have a name, and nothing
is known of their fields yet. All other slots that have become something are settled: what they
mention has become something too, and their definition is the image of their descriptor. A visit
leaves the same slots underway that it found, so at the end, when none is underway, everything is
settled.

The invariant also says how names are given. A name of the table is public and occurs once, records
and unions do not share theirs, and invented names have numbers that no other one has.

## Main definitions

* `WellFormed`, `Settled` — a descriptor that has become a type completely
* `Inv` — the invariant
* `Grows` — a draft has gone on, and only by types that something reachable has become

## Main results

* `Inv.claim`, `Inv.note`, `Inv.define` — the steps that change a draft keep the invariant
-/

namespace DeclaredSchema

namespace Synthesis

/-! ### Settled slots -/

/-- What a descriptor has to be like so that it can become a type in a mode. -/
structure WellFormed (g : Graph) (mode : Mode) (s : Shape) : Prop where
  /-- Some member counts. -/
  nonempty : ∀ ms, s.members? = some ms → counted ms ≠ []
  /-- Fields have public names. -/
  fields : ∀ ms, s.members? = some ms → ∀ m ∈ visible ms, isPublicName m.name = true
  /-- Arguments have public names. -/
  arguments : mode = .output → ∀ ms, s.members? = some ms → ∀ m ∈ visible ms,
    ∀ a ∈ visible (argumentMembers g m), isPublicName a.name = true
  /-- Only a union of texts can be used as input. -/
  inputUnion : mode = .input → ∀ name doc alternatives, s = .union name doc alternatives →
    isTexts alternatives = true
  /-- An enumeration consists of texts that can be names of values. -/
  values : ∀ name doc members, s = .enumeration name doc members → ∀ r ∈ members,
    ∃ text, r.text? = some text ∧ isName text = true ∧ text ∉ reservedValues

/-- The slot has become the type named `n` completely. -/
structure Settled (g : Graph) (options : CompileOptions) (d : Draft) (slot : Nat) (mode : Mode)
    (s : Shape) (n : String) : Prop where
  wellFormed : WellFormed g mode s
  /-- What it mentions has become something. -/
  known : ∀ r mode', Mentions g slot mode r mode' → ∃ t, d.typeOf? options mode' r = some t
  /-- Its entry in the table is the image of its descriptor. -/
  entry : ∃ u ∈ d.types, u.name = n ∧
    u.definition = definitionImage g (d.image options) mode s
  /-- The alternatives of a union have become object types. -/
  alternatives : ∀ name doc alternatives, s = .union name doc alternatives →
    isTexts alternatives = false → ∀ r ∈ alternatives,
      ∃ n', d.typeOf? options .output r = some (.named n') ∧ d.isObject n' = true

/-- The image of a descriptor depends on what it mentions, and on nothing else. -/
theorem definitionImage_congr {g : Graph} {T T' : TypeRef → Mode → SchemaType} {slot : Nat}
    {mode : Mode} {s : Shape} (hs : g.shapeAt? slot = some s) (hwell : WellFormed g mode s)
    (h : ∀ r mode', Mentions g slot mode r mode' → T r mode' = T' r mode') :
    definitionImage g T mode s = definitionImage g T' mode s := by
  have hrecord : ∀ ms, s.members? = some ms → recordImage g T mode ms = recordImage g T' mode ms := by
    intro ms hms
    cases mode with
    | input =>
      refine congrArg _ (List.map_congr_left fun m hm => ?_)
      rw [argumentImage, argumentImage, h _ _ (.member hs hms (mem_visible_of_mem_counted hm))]
    | output =>
      refine congrArg _ (List.map_congr_left fun m hm => ?_)
      have hm := mem_visible_of_mem_counted hm
      have harguments : (counted (argumentMembers g m)).map (argumentImage T) =
          (counted (argumentMembers g m)).map (argumentImage T') := by
        refine List.map_congr_left fun a ha => ?_
        rw [argumentImage, argumentImage,
          h _ _ (.argument hs hms hm (mem_visible_of_mem_counted ha))]
      rw [fieldImage, fieldImage, h _ _ (.member hs hms hm), harguments]
  cases s with
  | record name doc ms => exact hrecord ms rfl
  | inlineRecord location doc ms => exact hrecord ms rfl
  | enumeration name doc members => rfl
  | union name doc alternatives =>
    simp only [definitionImage]
    split
    · rfl
    · next htexts =>
      cases mode with
      | input => exact absurd (hwell.inputUnion rfl _ _ _ rfl) htexts
      | output =>
        have htexts : isTexts alternatives = false := by simpa using htexts
        refine congrArg _ (List.map_congr_left fun r hr => ?_)
        rw [h _ _ (.alternative hs htexts hr)]

namespace Settled

variable {g : Graph} {options : CompileOptions} {d d' : Draft} {slot : Nat} {mode : Mode}
  {s : Shape} {n : String}

/-- What is settled stays settled. -/
theorem mono (h : Settled g options d slot mode s n) (hs : g.shapeAt? slot = some s)
    (hext : d.Extends d') : Settled g options d' slot mode s n where
  wellFormed := h.wellFormed
  known r mode' hr := by
    obtain ⟨t, ht⟩ := h.known r mode' hr
    exact ⟨t, hext.typeOf? ht⟩
  entry := by
    obtain ⟨u, hu, hname, hdef⟩ := h.entry
    refine ⟨u, hext.mem_types hu, hname, ?_⟩
    rw [hdef]
    refine definitionImage_congr hs h.wellFormed fun r mode' hr => ?_
    obtain ⟨t, ht⟩ := h.known r mode' hr
    exact (hext.image_eq ht).symm
  alternatives name doc alternatives hunion htexts r hr := by
    obtain ⟨n', hn', hobject⟩ := h.alternatives name doc alternatives hunion htexts r hr
    exact ⟨n', hext.typeOf? hn', hext.isObject hobject⟩

/-- A settled entry is not the one with which a type starts. -/
theorem definition_ne_nil (h : Settled g options d slot mode s n) {u : NamedType}
    (hu : u.definition = definitionImage g (d.image options) mode s) :
    u.definition ≠ .object [] ∧ u.definition ≠ .inputObject [] ∧ u.definition ≠ .union [] := by
  rw [hu]
  cases s with
  | record name doc ms =>
    have hne := h.wellFormed.nonempty ms rfl
    cases mode <;> simp [definitionImage, recordImage, hne]
  | inlineRecord location doc ms =>
    have hne := h.wellFormed.nonempty ms rfl
    cases mode <;> simp [definitionImage, recordImage, hne]
  | enumeration name doc members => simp [definitionImage]
  | union name doc alternatives =>
    simp only [definitionImage]
    split
    · simp
    · next htexts =>
      -- a union of nothing would be one of texts
      have hne : alternatives ≠ [] := by
        rintro rfl
        exact htexts rfl
      simpa using hne

end Settled

/-! ### The invariant -/

/-- A shape whose scalar `s` may have: `s` itself, or an unnamed union of the same texts. -/
def Shares (s s' : Shape) : Prop :=
  s' = s ∨ ∃ doc alternatives doc' alternatives', s = .union none doc alternatives ∧
    s' = .union none doc' alternatives' ∧ isTexts alternatives = true ∧
    isTexts alternatives' = true ∧
    alternatives'.filterMap TypeRef.text? = alternatives.filterMap TypeRef.text?

/-- The slot has become the type named `n`, completely or not. -/
structure Named (g : Graph) (d : Draft) (mode : Mode) (s : Shape) (n : String) : Prop where
  name : IsNameOf mode s n
  /-- Its entry has the documentation of the descriptor that it was made for. -/
  entry : ∃ u ∈ d.types, u.name = n ∧ (isModeless s = false → u.definition.isScalar = false) ∧
    ∃ slot s', g.shapeAt? slot = some s' ∧ Shares s s' ∧ u.description = s'.doc.map .ofString

/-- The slot has got the invented name number `k`. -/
def HasNumber (g : Graph) (d : Draft) (slot : Nat) (mode : Mode) (k : Nat) : Prop :=
  ∃ n s, d.at? slot mode = some n ∧ g.shapeAt? slot = some s ∧ IsNumbered mode s n k

/-- What holds of a draft while the slots and modes of `U` are underway. -/
structure Inv (g : Graph) (options : CompileOptions) (U : Nat → Mode → Prop) (d : Draft) :
    Prop where
  /-- No two entries of the table share a name. -/
  nodup : (d.types.map NamedType.name).Nodup
  /-- Names of the table are public, and no built-in scalar has them. -/
  free : ∀ u ∈ d.types, isPublicName u.name = true ∧ BuiltIn.ofName? u.name = none
  named : ∀ {slot mode n}, d.at? slot mode = some n →
    ∃ s, g.shapeAt? slot = some s ∧ Named g d mode s n
  settled : ∀ {slot mode n s}, d.at? slot mode = some n → g.shapeAt? slot = some s →
    ¬ U slot mode → Settled g options d slot mode s n
  /-- What does not change with the mode is made for both modes at once. -/
  modeless : ∀ {slot mode n s}, d.at? slot mode = some n → g.shapeAt? slot = some s →
    isModeless s = true → ∀ mode', d.at? slot mode' = some n
  /-- Everything else has its name for itself. -/
  distinct : ∀ {slot mode n s}, d.at? slot mode = some n → g.shapeAt? slot = some s →
    isModeless s = false → ∀ {slot' mode'}, d.at? slot' mode' = some n →
      slot' = slot ∧ mode' = mode
  /-- The scalars of unnamed unions of texts. -/
  texts : ∀ {texts n}, d.texts.lookup texts = some n → n = derivedName texts ∧
    ∃ slot doc alternatives, g.shapeAt? slot = some (.union none doc alternatives) ∧
      isTexts alternatives = true ∧ alternatives.filterMap TypeRef.text? = texts ∧
      ⟨n, doc.map .ofString, .scalar (.texts texts)⟩ ∈ d.types
  numbers : ∀ {slot mode k}, HasNumber g d slot mode k → k ≤ d.invented
  /-- No number is given twice. -/
  once : ∀ {slot mode k slot' mode'}, HasNumber g d slot mode k → HasNumber g d slot' mode' k →
    slot' = slot ∧ mode' = mode

/-- `d'` has gone on from `d`. What is new in its table is what something reachable has become, and
the names that were invented have been given. -/
structure Grows (g : Graph) (listed : List TypeRef) (options : CompileOptions) (d d' : Draft) :
    Prop extends d.Extends d' where
  origin : ∀ u ∈ d'.types, u.name ∈ d.types.map NamedType.name ∨
    ∃ r mode, Reaches g listed r mode ∧ d'.typeOf? options mode r = some (.named u.name)
  issued : ∀ k, d.invented < k → k ≤ d'.invented → ∃ slot mode, HasNumber g d' slot mode k

section Invariant

variable {g : Graph} {listed : List TypeRef} {options : CompileOptions} {U U' : Nat → Mode → Prop}
  {d d' : Draft} {slot : Nat} {mode : Mode} {s : Shape} {n : String}

theorem HasNumber.mono {k : Nat} (h : HasNumber g d slot mode k) (hext : d.Extends d') :
    HasNumber g d' slot mode k := by
  obtain ⟨n, s, hn, hrest⟩ := h
  exact ⟨n, s, hext.at? hn, hrest⟩

namespace Grows

theorem refl (d : Draft) : Grows g listed options d d where
  toExtends := .refl d
  origin _ hu := .inl (List.mem_map_of_mem hu)
  issued _ h h' := absurd h (Nat.not_lt.mpr h')

theorem trans {a b c : Draft} (h : Grows g listed options a b) (h' : Grows g listed options b c) :
    Grows g listed options a c where
  toExtends := h.toExtends.trans h'.toExtends
  origin u hu := by
    rcases h'.origin u hu with hb | hc
    · obtain ⟨v, hv, hname⟩ := List.mem_map.mp hb
      rcases h.origin v hv with ha | ⟨r, mode, hr, ht⟩
      · exact .inl (hname ▸ ha)
      · exact .inr ⟨r, mode, hr, hname ▸ h'.typeOf? ht⟩
    · exact .inr hc
  issued k hlt hle := by
    by_cases hk : k ≤ b.invented
    · obtain ⟨slot, mode, hnumber⟩ := h.issued k hlt hk
      exact ⟨slot, mode, hnumber.mono h'.toExtends⟩
    · exact h'.issued k (Nat.not_le.mp hk) hle

/-- A step that adds nothing to the table and invents nothing. -/
theorem of_types_eq (hext : d.Extends d') (h : d'.types = d.types)
    (hinvented : d'.invented = d.invented) : Grows g listed options d d' where
  toExtends := hext
  origin _ hu := .inl (List.mem_map_of_mem (h ▸ hu))
  issued _ hlt hle := absurd hlt (Nat.not_lt.mpr (hinvented ▸ hle))

end Grows

theorem Named.mono (h : Named g d mode s n) (hext : d.Extends d') : Named g d' mode s n where
  name := h.name
  entry := by
    obtain ⟨u, hu, hrest⟩ := h.entry
    exact ⟨u, hext.mem_types hu, hrest⟩

namespace Inv

theorem empty : Inv g options (fun _ _ => False) Draft.empty where
  nodup := List.nodup_nil
  free _ hu := absurd hu List.not_mem_nil
  named h := by cases h
  settled h := by cases h
  modeless h := by cases h
  distinct h := by cases h
  texts h := by cases h
  numbers := by
    rintro _ _ _ ⟨_, _, h, -⟩
    cases h
  once := by
    rintro _ _ _ _ _ ⟨_, _, h, -⟩
    cases h

/-- A step that notes nothing keeps the invariant, if the table and the texts are as they should
be. -/
theorem of_at?_eq (h : Inv g options U d) (hext : d.Extends d')
    (hat : ∀ slot mode, d'.at? slot mode = d.at? slot mode)
    (hnodup : (d'.types.map NamedType.name).Nodup)
    (hfree : ∀ u ∈ d'.types, isPublicName u.name = true ∧ BuiltIn.ofName? u.name = none)
    (htexts : ∀ {texts n}, d'.texts.lookup texts = some n → n = derivedName texts ∧
      ∃ slot doc alternatives, g.shapeAt? slot = some (.union none doc alternatives) ∧
        isTexts alternatives = true ∧ alternatives.filterMap TypeRef.text? = texts ∧
        ⟨n, doc.map .ofString, .scalar (.texts texts)⟩ ∈ d'.types) :
    Inv g options U d' := by
  have hnumber : ∀ {slot mode k}, HasNumber g d' slot mode k → HasNumber g d slot mode k := by
    rintro slot mode k ⟨n, s, hn, hs, hk⟩
    exact ⟨n, s, hat slot mode ▸ hn, hs, hk⟩
  constructor
  case nodup => exact hnodup
  case free => exact hfree
  case named =>
    intro slot mode n hn
    obtain ⟨s, hs, hnamed⟩ := h.named (hat slot mode ▸ hn)
    exact ⟨s, hs, hnamed.mono hext⟩
  case settled =>
    intro slot mode n s hn hs hU
    exact (h.settled (hat slot mode ▸ hn) hs hU).mono hs hext
  case modeless =>
    intro slot mode n s hn hs hmodeless mode'
    rw [hat] at hn ⊢
    exact h.modeless hn hs hmodeless mode'
  case distinct =>
    intro slot mode n s hn hs hmodeless slot' mode' hn'
    rw [hat] at hn hn'
    exact h.distinct hn hs hmodeless hn'
  case texts => exact htexts
  case numbers =>
    intro slot mode k hk
    exact Nat.le_trans (h.numbers (hnumber hk)) hext.invented
  case once =>
    intro slot mode k slot' mode' hk hk'
    exact h.once (hnumber hk) (hnumber hk')

/-- The trace does not matter, and numbers may be left out. -/
theorem congr (h : Inv g options U d) (hclaims : d'.claims = d.claims) (hmade : d'.made = d.made)
    (htexts : d'.texts = d.texts) (hinvented : d.invented ≤ d'.invented) :
    Inv g options U d' := by
  have hext : d.Extends d' :=
    ⟨hclaims ▸ List.prefix_refl _, hmade ▸ List.prefix_refl _, hinvented⟩
  have htypes : d'.types = d.types := congrArg (List.map Claim.type) hclaims
  refine h.of_at?_eq hext (fun slot mode => ?_) (htypes ▸ h.nodup) (htypes ▸ h.free) ?_
  · rw [Draft.at?, hmade, Draft.at?]
  · rw [htexts, htypes]
    exact h.texts

/-! ### Steps that change a draft -/

/-- A new entry of the table. -/
theorem claim (h : Inv g options U d) {u : NamedType} (label : String)
    (hpublic : isPublicName u.name = true) (hfree : d.owner? u.name = none) :
    Inv g options U { d with claims := d.claims ++ [⟨u, label⟩] } := by
  obtain ⟨hbuiltIn, hnew⟩ := Draft.free_of_owner? hfree
  have hext : d.Extends { d with claims := d.claims ++ [⟨u, label⟩] } :=
    ⟨List.prefix_append _ _, List.prefix_refl _, Nat.le_refl _⟩
  have htypes : Draft.types { d with claims := d.claims ++ [⟨u, label⟩] } = d.types ++ [u] := by
    simp [Draft.types]
  refine h.of_at?_eq hext (fun _ _ => rfl) ?nodup ?free ?texts
  case nodup =>
    rw [htypes, List.map_append, List.map_singleton, List.nodup_append]
    refine ⟨h.nodup, List.nodup_singleton _, fun a ha b hb => ?_⟩
    rintro rfl
    exact hnew (List.mem_singleton.mp hb ▸ ha)
  case free =>
    intro v hv
    rw [htypes, List.mem_append, List.mem_singleton] at hv
    rcases hv with hv | rfl
    · exact h.free v hv
    · exact ⟨hpublic, hbuiltIn⟩
  case texts =>
    intro texts n hlookup
    obtain ⟨hn, slot, doc, alternatives, hs, htexts, heq, hmem⟩ := h.texts hlookup
    exact ⟨hn, slot, doc, alternatives, hs, htexts, heq, hext.mem_types hmem⟩

/-- A new scalar for the unnamed unions of some texts. -/
theorem text (h : Inv g options U d) {slot : Nat} {doc : Option String}
    {alternatives : List TypeRef} (hs : g.shapeAt? slot = some (.union none doc alternatives))
    (htexts : isTexts alternatives = true)
    (hmem : ⟨derivedName (alternatives.filterMap TypeRef.text?), doc.map .ofString,
      .scalar (.texts (alternatives.filterMap TypeRef.text?))⟩ ∈ d.types) :
    Inv g options U { d with texts := d.texts ++ [(alternatives.filterMap TypeRef.text?,
      derivedName (alternatives.filterMap TypeRef.text?))] } := by
  have hext : d.Extends { d with texts := d.texts ++ [(alternatives.filterMap TypeRef.text?,
      derivedName (alternatives.filterMap TypeRef.text?))] } :=
    ⟨List.prefix_refl _, List.prefix_refl _, Nat.le_refl _⟩
  refine h.of_at?_eq hext (fun _ _ => rfl) h.nodup h.free ?_
  intro texts n hlookup
  rw [List.lookup_append, Option.or_eq_some_iff] at hlookup
  rcases hlookup with hold | ⟨-, hnew⟩
  · exact h.texts hold
  · obtain ⟨rfl, rfl⟩ : texts = alternatives.filterMap TypeRef.text? ∧
        derivedName (alternatives.filterMap TypeRef.text?) = n := by
      rw [List.lookup_cons] at hnew
      split at hnew
      · next heq => exact ⟨by simpa using heq, by simpa using hnew⟩
      · cases hnew
    exact ⟨rfl, slot, doc, alternatives, hs, htexts, rfl, hmem⟩

end Inv

/-! ### Noting what a slot has become -/

/-- The draft in which a slot has become the type named `n` in some modes. -/
def noted (d : Draft) (slot : Nat) (modes : List Mode) (n : String) : Draft :=
  { d with made := d.made ++ modes.map fun mode => ((slot, mode), n) }

theorem extends_noted (d : Draft) (slot : Nat) (modes : List Mode) (n : String) :
    d.Extends (noted d slot modes n) :=
  ⟨List.prefix_refl _, List.prefix_append _ _, Nat.le_refl _⟩

theorem at?_noted {modes : List Mode} (hnone : ∀ mode ∈ modes, d.at? slot mode = none)
    {slot' : Nat} {mode' : Mode} {n' : String} :
    (noted d slot modes n).at? slot' mode' = some n' ↔
      d.at? slot' mode' = some n' ∨ slot' = slot ∧ mode' ∈ modes ∧ n' = n := by
  have hnew : ∀ modes : List Mode, ∀ n', (modes.map fun mode => ((slot, mode), n)).lookup
      (slot', mode') = some n' ↔ slot' = slot ∧ mode' ∈ modes ∧ n' = n := by
    intro modes n'
    induction modes with
    | nil => simp
    | cons mode rest ih =>
      rw [List.map_cons, List.lookup_cons]
      by_cases hkey : (slot', mode') = (slot, mode)
      · obtain ⟨rfl, rfl⟩ := Prod.mk.inj hkey
        simp [eq_comm]
      · have hkey' : ¬ (slot' = slot ∧ mode' = mode) := fun h => hkey (by rw [h.1, h.2])
        rw [beq_false_of_ne hkey, ih]
        simp only [List.mem_cons]
        tauto
  rw [Draft.at?, noted, List.lookup_append, Option.or_eq_some_iff, hnew]
  constructor
  · rintro (hold | ⟨-, hnew⟩)
    · exact .inl hold
    · exact .inr hnew
  · rintro (hold | ⟨rfl, hmode, rfl⟩)
    · exact .inl hold
    · exact .inr ⟨hnone mode' hmode, rfl, hmode, rfl⟩

theorem Inv.note (h : Inv g options U d) {modes : List Mode} (hs : g.shapeAt? slot = some s)
    (hU : ∀ {slot mode}, U slot mode → U' slot mode)
    (hnone : ∀ mode ∈ modes, d.at? slot mode = none)
    (hnamed : ∀ mode ∈ modes, Named g d mode s n)
    (hboth : isModeless s = true → ∀ mode, mode ∈ modes)
    (hone : isModeless s = false → ∀ a ∈ modes, ∀ b ∈ modes, a = b)
    (hothers : ∀ {slot' mode' s'}, d.at? slot' mode' = some n → g.shapeAt? slot' = some s' →
      isModeless s = true ∧ isModeless s' = true)
    (hsettled : ∀ mode ∈ modes, ¬ U' slot mode →
      Settled g options (noted d slot modes n) slot mode s n)
    (hnumber : ∀ mode ∈ modes, ∀ k, IsNumbered mode s n k →
      k ≤ d.invented ∧ ∀ slot' mode', ¬ HasNumber g d slot' mode' k) :
    Inv g options U' (noted d slot modes n) := by
  have hext := extends_noted d slot modes n
  have hat : ∀ {slot' mode' n'}, (noted d slot modes n).at? slot' mode' = some n' ↔
      d.at? slot' mode' = some n' ∨ slot' = slot ∧ mode' ∈ modes ∧ n' = n := at?_noted hnone
  have hHas : ∀ {slot' mode' k}, HasNumber g (noted d slot modes n) slot' mode' k →
      HasNumber g d slot' mode' k ∨ slot' = slot ∧ mode' ∈ modes ∧ IsNumbered mode' s n k := by
    rintro slot' mode' k ⟨n', s', hn', hs', hk⟩
    rcases hat.mp hn' with hold | ⟨rfl, hmode, rfl⟩
    · exact .inl ⟨n', s', hold, hs', hk⟩
    · rw [hs, Option.some.injEq] at hs'
      subst hs'
      exact .inr ⟨rfl, hmode, hk⟩
  constructor
  case nodup => exact h.nodup
  case free => exact h.free
  case named =>
    intro slot' mode' n' hn'
    rcases hat.mp hn' with hold | ⟨rfl, hmode, rfl⟩
    · obtain ⟨s', hs', hnamed'⟩ := h.named hold
      exact ⟨s', hs', hnamed'.mono hext⟩
    · exact ⟨s, hs, (hnamed mode' hmode).mono hext⟩
  case settled =>
    intro slot' mode' n' s' hn' hs' hU'
    rcases hat.mp hn' with hold | ⟨rfl, hmode, rfl⟩
    · exact (h.settled hold hs' fun hu => hU' (hU hu)).mono hs' hext
    · rw [hs, Option.some.injEq] at hs'
      subst hs'
      exact hsettled mode' hmode hU'
  case modeless =>
    intro slot' mode' n' s' hn' hs' hmodeless mode''
    rcases hat.mp hn' with hold | ⟨rfl, hmode, rfl⟩
    · exact hat.mpr (.inl (h.modeless hold hs' hmodeless mode''))
    · rw [hs, Option.some.injEq] at hs'
      subst hs'
      exact hat.mpr (.inr ⟨rfl, hboth hmodeless mode'', rfl⟩)
  case distinct =>
    intro a ma n' s' ha hs' hmodeless b mb hb
    rcases hat.mp ha with hold | ⟨rfl, hmode, rfl⟩
    · rcases hat.mp hb with hold' | ⟨rfl, hmode', rfl⟩
      · exact h.distinct hold hs' hmodeless hold'
      · rw [(hothers hold hs').2] at hmodeless
        cases hmodeless
    · rw [hs, Option.some.injEq] at hs'
      subst hs'
      rcases hat.mp hb with hold' | ⟨rfl, hmode', -⟩
      · obtain ⟨s'', hs'', -⟩ := h.named hold'
        rw [(hothers hold' hs'').1] at hmodeless
        cases hmodeless
      · exact ⟨rfl, hone hmodeless mb hmode' ma hmode⟩
  case texts => exact h.texts
  case numbers =>
    intro a ma k hk
    rcases hHas hk with hold | ⟨rfl, hmode, hnum⟩
    · exact h.numbers hold
    · exact (hnumber ma hmode k hnum).1
  case once =>
    intro a ma k b mb hk hk'
    rcases hHas hk with hold | ⟨rfl, hmode, hnum⟩
    · rcases hHas hk' with hold' | ⟨rfl, hmode', hnum'⟩
      · exact h.once hold hold'
      · exact absurd hold ((hnumber mb hmode' k hnum').2 a ma)
    · rcases hHas hk' with hold' | ⟨rfl, hmode', hnum'⟩
      · exact absurd hold' ((hnumber ma hmode k hnum).2 b mb)
      · exact ⟨rfl, hone hnum.isModeless mb hmode' ma hmode⟩

/-! ### Filling in a definition -/

section Define

variable {u : NamedType} {definition : TypeDefinition}

theorem Named.define (h : Named g d mode s n) (name : String) (hnew : definition.isScalar = false) :
    Named g (d.define name definition) mode s n where
  name := h.name
  entry := by
    obtain ⟨u, hu, rfl, hkind, hdescribed⟩ := h.entry
    by_cases hname : u.name = name
    · subst hname
      exact ⟨_, Draft.mem_types_define_self hu, rfl, fun _ => hnew, hdescribed⟩
    · exact ⟨u, Draft.mem_types_define_of_ne hu hname, rfl, hkind, hdescribed⟩

/-- What is settled stays settled when the definition of another type is filled in. -/
theorem Settled.define {slot : Nat} (h : Settled g options d slot mode s n) {name : String}
    (hne : n ≠ name) (hold : ∀ u ∈ d.types, u.name = name → u.definition.isScalar = false)
    (hnew : definition.isScalar = false)
    (hobject : ∀ u ∈ d.types, u.name = name → u.definition.isObject = definition.isObject) :
    Settled g options (d.define name definition) slot mode s n where
  wellFormed := h.wellFormed
  known r mode' hr := by
    rw [Draft.typeOf?_define hold hnew]
    exact h.known r mode' hr
  entry := by
    obtain ⟨u, hu, rfl, hdef⟩ := h.entry
    refine ⟨u, Draft.mem_types_define_of_ne hu hne, rfl, ?_⟩
    rw [hdef, Draft.image_define hold hnew]
  alternatives name' doc alternatives hunion htexts r hr := by
    rw [Draft.typeOf?_define hold hnew]
    obtain ⟨n', hn', hn⟩ := h.alternatives name' doc alternatives hunion htexts r hr
    exact ⟨n', hn', (Draft.isObject_define hobject n').trans hn⟩

/-- **The end of a visit.** When the definition of the type that was underway is filled in and the
slot is settled by it, the invariant holds without it. -/
theorem Inv.define (h : Inv g options U' d)
    (hU : ∀ {slot' mode'}, U' slot' mode' → U slot' mode' ∨ slot' = slot ∧ mode' = mode)
    (hs : g.shapeAt? slot = some s) (hn : d.at? slot mode = some n) (hu : u ∈ d.types)
    (hname : u.name = n)
    (hstart : u.definition = .object [] ∨ u.definition = .inputObject [] ∨
      u.definition = .union [])
    (hnew : definition.isScalar = false) (hobject : u.definition.isObject = definition.isObject)
    (hsettled : Settled g options (d.define n definition) slot mode s n) :
    Inv g options U (d.define n definition) := by
  have hself : ∀ v ∈ d.types, v.name = n → v = u := fun v hv hvn =>
    Draft.type_unique h.nodup hv hu (hvn.trans hname.symm)
  have hscalar : u.definition.isScalar = false := by
    rcases hstart with hd | hd | hd <;> rw [hd] <;> rfl
  have hold : ∀ v ∈ d.types, v.name = n → v.definition.isScalar = false :=
    fun v hv hvn => hself v hv hvn ▸ hscalar
  have hobject' : ∀ v ∈ d.types, v.name = n → v.definition.isObject = definition.isObject :=
    fun v hv hvn => hself v hv hvn ▸ hobject
  constructor
  case nodup =>
    rw [Draft.names_define]
    exact h.nodup
  case free =>
    intro v hv
    rw [Draft.types_define, List.mem_map] at hv
    obtain ⟨w, hw, rfl⟩ := hv
    split
    · exact h.free w hw
    · exact h.free w hw
  case named =>
    intro slot' mode' n' hn'
    obtain ⟨s', hs', hnamed⟩ := h.named hn'
    exact ⟨s', hs', hnamed.define n hnew⟩
  case settled =>
    intro slot' mode' n' s' hn' hs' hunder
    by_cases hhere : slot' = slot ∧ mode' = mode
    · obtain ⟨rfl, rfl⟩ := hhere
      rw [Draft.at?_define, hn, Option.some.injEq] at hn'
      rw [hs, Option.some.injEq] at hs'
      subst hn' hs'
      exact hsettled
    · have hfree : ¬ U' slot' mode' := fun hu' => (hU hu').elim hunder hhere
      have hother := h.settled hn' hs' hfree
      refine hother.define ?_ hold hnew hobject'
      -- the entry of a settled slot is no start of a type, but that of `n` is one
      rintro rfl
      obtain ⟨v, hv, hvn, hdef⟩ := hother.entry
      obtain ⟨hne, hne', hne''⟩ := hother.definition_ne_nil hdef
      rw [hself v hv hvn] at hne hne' hne''
      rcases hstart with hd | hd | hd
      · exact hne hd
      · exact hne' hd
      · exact hne'' hd
  case modeless => exact h.modeless
  case distinct => exact h.distinct
  case texts =>
    intro texts n' hlookup
    obtain ⟨hn', slot', doc, alternatives, hs', htexts, heq, hmem⟩ := h.texts hlookup
    refine ⟨hn', slot', doc, alternatives, hs', htexts, heq, Draft.mem_types_define_of_ne hmem ?_⟩
    intro hvn
    have := hold _ hmem hvn
    cases this
  case numbers => exact h.numbers
  case once => exact h.once

theorem Grows.define (h : Grows g listed options d d') (hnot : n ∉ d.types.map NamedType.name)
    (hold : ∀ u ∈ d'.types, u.name = n → u.definition.isScalar = false)
    (hnew : definition.isScalar = false) :
    Grows g listed options d (d'.define n definition) where
  toExtends := h.toExtends.define hnot definition
  origin v hv := by
    rw [Draft.types_define, List.mem_map] at hv
    obtain ⟨w, hw, rfl⟩ := hv
    have hname : (if w.name = n then { w with definition } else w).name = w.name := by
      split <;> rfl
    rw [hname]
    rcases h.origin w hw with hin | ⟨r, mode, hr, ht⟩
    · exact .inl hin
    · exact .inr ⟨r, mode, hr, (Draft.typeOf?_define hold hnew r mode).trans ht⟩
  issued := h.issued

end Define

end Invariant

end Synthesis

end DeclaredSchema
