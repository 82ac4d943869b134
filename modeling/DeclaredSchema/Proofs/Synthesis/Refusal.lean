import DeclaredSchema.Proofs.Failure
import DeclaredSchema.Proofs.Synthesis.Run

/-!
# Unions that are refused

Three faults of a synthesis refuse a union for what its alternatives are. A union of texts meets
none of them, and a union of records none of those for output. For the former it is enough to look
at the step that refuses. For the latter the visit of a record has to come back with an object type,
also where the record is still underway: then it has been claimed already, and as an object type.

## Main definitions

* `RefusesUnion`, `IsRefusable` — the faults, and the unions that may meet them
* `ObjectsUnderway` — the records that are underway as output have been claimed
* `Justified` — a failure refuses only unions that may be refused

## Main results

* `isObject_of_isRecord` — a record that has become something as output is an object type
* `visit_justified` — visits
* `isRefusable_of_synthesize` — only unions that may be refused are
-/

namespace DeclaredSchema

namespace Synthesis

/-- The fault refuses the union of the label in the mode, for what its alternatives are. -/
def RefusesUnion (mode : Mode) (label : String) : SynthesisFault → Prop
  | .inputUnion l => mode = .input ∧ l = label
  | .onlyPrimitives l | .notObjectMember _ l => mode = .output ∧ l = label
  | _ => False

/-- A union of the label does not consist of texts, nor of records if it is output. -/
def IsRefusable (g : Graph) (mode : Mode) (label : String) : Prop :=
  ∃ d ∈ g, d.label = label ∧ ∃ name doc alternatives, d.shape = .union name doc alternatives ∧
    isTexts alternatives = false ∧ (mode = .output → ∃ r ∈ alternatives, g.isRecord r = false)

/-- The failure refuses no union without a reason. -/
def Justified (g : Graph) (e : SynthesisFailure) : Prop :=
  ∀ x mode label, e = .descriptor x → RefusesUnion mode label x.fault → IsRefusable g mode label

/-- The records that are underway as output have been claimed as object types. -/
def ObjectsUnderway (g : Graph) (U : Nat → Mode → Prop) (d : Draft) : Prop :=
  ∀ slot, U slot .output → g.isRecord (.node slot) = true →
    ∃ n, d.at? slot .output = some n ∧ d.isObject n = true

/-- What holds between two steps. -/
structure Running (g : Graph) (options : CompileOptions) (U : Nat → Mode → Prop) (d : Draft) :
    Prop where
  inv : Inv g options U d
  objects : ObjectsUnderway g U d

variable {g : Graph} {listed : List TypeRef} {options : CompileOptions} {U : Nat → Mode → Prop}
  {d d' : Draft} {slot : Nat} {mode : Mode} {s : Shape} {n label : String}
  {e : SynthesisFailure} {α : Type} {name doc : Option String} {alternatives : List TypeRef}

theorem exists_members?_of_isRecord (h : g.isRecord (.node slot) = true) :
    ∃ s ms, g.shapeAt? slot = some s ∧ s.members? = some ms := by
  obtain ⟨ms, hms⟩ := Option.isSome_iff_exists.mp h
  obtain ⟨s, hs, hms⟩ := Option.bind_eq_some_iff.mp hms
  exact ⟨s, ms, hs, hms⟩

namespace ObjectsUnderway

/-- Only what has been claimed and noted counts. -/
theorem congr (h : ObjectsUnderway g U d) (hclaims : d'.claims = d.claims)
    (hmade : d'.made = d.made) : ObjectsUnderway g U d' := by
  intro slot hunder hrecord
  obtain ⟨n, hn, hobject⟩ := h slot hunder hrecord
  refine ⟨n, ?_, ?_⟩
  · rwa [Draft.at?, hmade]
  · rwa [Draft.isObject, Draft.claim?, hclaims]

theorem mono (h : ObjectsUnderway g U d) (hext : d.Extends d') : ObjectsUnderway g U d' := by
  intro slot hunder hrecord
  obtain ⟨n, hn, hobject⟩ := h slot hunder hrecord
  exact ⟨n, hext.at? hn, hext.isObject hobject⟩

/-- One more slot is underway. -/
theorem also (h : ObjectsUnderway g U d) (hn : d.at? slot mode = some n)
    (hobject : mode = .output → g.isRecord (.node slot) = true → d.isObject n = true) :
    ObjectsUnderway g (also U slot mode) d := by
  rintro slot' (hunder | ⟨rfl, rfl⟩) hrecord
  · exact h slot' hunder hrecord
  · exact ⟨n, hn, hobject rfl hrecord⟩

end ObjectsUnderway

namespace Running

theorem empty : Running g options (fun _ _ => False) Draft.empty :=
  ⟨.empty, fun _ h => h.elim⟩

/-- What has been claimed stays so. -/
theorem goes (h : Running g options U d) (hinv : Inv g options U d')
    (hgrows : Grows g listed options d d') : Running g options U d' :=
  ⟨hinv, h.objects.mono hgrows.toExtends⟩

theorem makes {r : TypeRef} {t : SchemaType} (h : Running g options U d)
    (hmade : Makes g listed options U d d' r mode t) : Running g options U d' :=
  h.goes hmade.inv hmade.grows

/-- **A record that has become something as output** is an object type, completely or not. -/
theorem isObject_of_isRecord (h : Running g options U d) (hn : d.at? slot .output = some n)
    (hrecord : g.isRecord (.node slot) = true) : d.isObject n = true := by
  by_cases hunder : U slot .output
  · obtain ⟨n', hn', hobject⟩ := h.objects slot hunder hrecord
    cases hn.symm.trans hn'
    exact hobject
  · obtain ⟨s, ms, hs, hms⟩ := exists_members?_of_isRecord hrecord
    obtain ⟨v, hv, hname, hdef⟩ := (h.inv.settled hn hs hunder).entry
    refine (Draft.isObject_iff h.inv.nodup).mpr ⟨v, hv, hname, ?_⟩
    rw [hdef, definitionImage_of_members? hms]
    rfl

end Running

/-! ### Single steps -/

theorem justified_name {fault : NameFault} : Justified g (.name fault) := nofun

theorem justified_endless : Justified g .endless := nofun

@[simp] theorem fails_fail {fault : SynthesisFault} :
    Fails (fail label fault : Synth α) d e ↔ e = .descriptor ⟨fault, label⟩ :=
  fails_throw

/-- A fault that is not about unions. -/
theorem justified_fault {fault : SynthesisFault} {owner : String}
    (h : ∀ mode label, ¬RefusesUnion mode label fault) :
    Justified g (.descriptor ⟨fault, owner⟩) := by
  rintro x mode label ⟨⟩ hrefuses
  exact absurd hrefuses (h mode label)

theorem fail_justified {fault : SynthesisFault} (h : Fails (fail n fault : Synth α) d e)
    (hfault : ∀ mode label, ¬RefusesUnion mode label fault) : Justified g e := by
  rw [fails_fail.mp h]
  exact justified_fault hfault

@[simp] theorem fails_record {event : Event} : ¬Fails (record event) d e := fails_modify

@[simp] theorem fails_note {modes : List Mode} : ¬Fails (note slot modes n) d e := fails_modify

@[simp] theorem fails_invent {start : String} : ¬Fails (invent start) d e := by
  simp [invent]

theorem named_justified (h : Fails (named n) d e) : Justified g e := by
  unfold named at h
  split at h
  · exact absurd h fails_pure
  · rw [fails_throw.mp h]
    exact justified_name

theorem claim_justified {v : NamedType} (h : Fails (claim v label) d e) : Justified g e := by
  cases hpublic : isPublicName v.name with
  | false =>
    have hfault : e = .descriptor ⟨.notTypeName v.name label, label⟩ := by
      simpa [claim, hpublic] using h
    rw [hfault]
    exact justified_fault fun _ _ => id
  | true =>
    simp only [claim, hpublic, Bool.not_true, Bool.false_eq_true, if_false, fails_get_bind] at h
    split at h
    · exact absurd h fails_set
    · rw [fails_ite] at h
      rcases h with ⟨-, h⟩ | ⟨-, h⟩
      · exact absurd h fails_pure
      · exact fail_justified h fun _ _ => id

theorem customScalar?_justified {p : Primitive} (h : Fails (customScalar? options p) d e) :
    Justified g e := by
  unfold customScalar? at h
  split at h
  · exact absurd h fails_pure
  · split at h
    · exact absurd h fails_pure
    · simp only [fails_bind, fails_modify, false_or] at h
      obtain ⟨_, _, -, h⟩ := h
      split at h
      · exact absurd h fails_pure
      · rw [fails_throw.mp h]
        exact justified_name

theorem primitive_justified {p : Primitive} (h : Fails (primitive options p) d e) :
    Justified g e := by
  unfold primitive at h
  rw [fails_ite] at h
  rcases h with ⟨-, h⟩ | ⟨-, h⟩
  · exact absurd h fails_pure
  · rcases fails_bind.mp h with h | ⟨found, d', -, h⟩
    · exact customScalar?_justified h
    · split at h
      · rw [fails_get_bind] at h
        split at h
        · simp only [fails_bind, fails_pure, and_false, exists_false, or_false] at h
          exact claim_justified h
        · exact absurd h fails_pure
      · split at h
        · exact absurd h fails_pure
        · exact fail_justified h fun _ _ => id

theorem textScalar_justified {texts : List String}
    (h : Fails (textScalar slot name doc texts label) d e) : Justified g e := by
  simp only [textScalar, fails_get_bind, pure_bind] at h
  generalize (if name.isNone = true then d.texts.lookup texts else none) = shared at h
  cases shared with
  | some made => simp at h
  | none =>
    rcases fails_bind.mp h with h | ⟨_, d', -, h⟩
    · exact named_justified h
    · rcases fails_bind.mp h with h | ⟨_, d'', -, h⟩
      · exact claim_justified h
      · rw [fails_ite] at h
        simp at h

theorem enumValues_justified {members : List TypeRef} {acc : List String}
    (h : Fails (enumValues g label members acc) d e) : Justified g e := by
  induction members generalizing acc with
  | nil => exact absurd h fails_pure
  | cons r rest ih =>
    unfold enumValues at h
    split at h
    · exact fail_justified h fun _ _ => id
    · rw [fails_ite] at h
      rcases h with ⟨-, h⟩ | ⟨-, h⟩
      · exact fail_justified h fun _ _ => id
      · exact ih h

theorem enumType_justified {owner : String} {members : List TypeRef}
    (h : Fails (enumType g slot owner doc members label) d e) : Justified g e := by
  simp only [enumType, fails_bind, fails_note, fails_pure, and_false, exists_false, or_false] at h
  rcases h with h | ⟨_, _, -, h | ⟨_, _, -, h⟩⟩
  · exact enumValues_justified h
  · exact named_justified h
  · exact claim_justified h

theorem fieldName_justified {m : Member} (h : Fails (fieldName m label) d e) : Justified g e := by
  unfold fieldName at h
  rw [fails_ite] at h
  rcases h with ⟨-, h⟩ | ⟨-, h⟩
  · exact absurd h fails_pure
  · exact fail_justified h fun _ _ => id

/-- Gathering fails at a member that counts. -/
theorem fails_gather {β : Type} {key : β → String} {make : Member → Synth β} {ms : List Member}
    {acc : List β} (Good : Draft → Prop)
    (hstep : ∀ m ∈ visible ms, ∀ d x d', Good d → Yields (make m) d x d' → Good d')
    (h : Fails (gather key make ms acc) d e) (hd : Good d) :
    ∃ m ∈ visible ms, ∃ d', Good d' ∧ Fails (make m) d' e := by
  induction ms generalizing acc d with
  | nil => exact absurd h fails_pure
  | cons m rest ih =>
    rw [gather, fails_ite] at h
    rcases h with ⟨hname, h⟩ | ⟨hname, h⟩
    · rw [visible_cons, if_pos hname] at hstep ⊢
      exact ih hstep h hd
    · rw [visible_cons, if_neg hname] at hstep ⊢
      rcases fails_bind.mp h with h | ⟨x, d', hx, h⟩
      · exact ⟨m, List.mem_cons_self .., d, hd, h⟩
      · obtain ⟨m', hm', hfails⟩ := ih (fun m' hm' => hstep m' (List.mem_cons_of_mem m hm')) h
          (hstep m (List.mem_cons_self ..) d x d' hd hx)
        exact ⟨m', List.mem_cons_of_mem m hm', hfails⟩

/-! ### Steps that visit -/

/-- A visit that fails refuses no union without a reason. -/
def VisitsJustified (g : Graph) (listed : List TypeRef) (options : CompileOptions)
    (visit : Nat → Mode → Synth SchemaType) : Prop :=
  ∀ {slot mode U d e}, Running g options U d → Reaches g listed (.node slot) mode →
    Fails (visit slot mode) d e → Justified g e

section Step

variable {visit : Nat → Mode → Synth SchemaType} (hvisit : Visits g listed options visit)
  (hjustified : VisitsJustified g listed options visit) {r : TypeRef} {ms : List Member}

include hjustified in
theorem typeOf_justified (hrun : Running g options U d) (hr : Reaches g listed r mode)
    (h : Fails (typeOf options visit mode r) d e) : Justified g e := by
  induction r with
  | primitive => exact primitive_justified h
  | array element ih =>
    simp only [typeOf, fails_bind, fails_pure, and_false, exists_false, or_false] at h
    exact ih hr.element h
  | untypedArray | foreign =>
    exact fail_justified h fun _ _ => id
  | date =>
    simp only [typeOf, fails_bind, fails_pure, and_false, exists_false, or_false] at h
    exact claim_justified h
  | node => exact hjustified hrun hr h

include hvisit hjustified

theorem inputValues_justified (hrun : Running g options U d)
    (hr : ∀ m ∈ visible ms, Reaches g listed m.type .input)
    (h : Fails (inputValues options visit label ms []) d e) : Justified g e := by
  have hstep : ∀ m ∈ visible ms, ∀ d x d', Running g options U d →
      Yields (inputValue options visit label m) d x d' → Running g options U d' := by
    intro m hm d x d' hd hx
    simp only [inputValue, yields_bind, yields_fieldName, yields_pure] at hx
    obtain ⟨_, _, ⟨-, rfl⟩, t, _, ht, -, rfl⟩ := hx
    exact hd.makes (typeOf_makes hvisit hd.inv (hr m hm) ht)
  rw [inputValues_eq] at h
  obtain ⟨m, hm, d', hrun', h⟩ := fails_gather _ hstep h hrun
  simp only [inputValue, fails_bind, fails_pure, and_false, exists_false, or_false,
    yields_fieldName] at h
  rcases h with h | ⟨_, _, ⟨-, rfl⟩, h⟩
  · exact fieldName_justified h
  · exact typeOf_justified hjustified hrun' (hr m hm) h

theorem outputField_justified {m : Member} (hrun : Running g options U d)
    (hr : Reaches g listed m.type .output)
    (ha : ∀ a ∈ visible (argumentMembers g m), Reaches g listed a.type .input)
    (h : Fails (outputField g options visit label m) d e) : Justified g e := by
  rcases fails_bind.mp h with h | ⟨t, d', ht, h⟩
  · exact typeOf_justified hjustified hrun hr h
  · have hrun' := hrun.makes (typeOf_makes hvisit hrun.inv hr ht)
    cases hbag : m.arguments with
    | none => simp [hbag] at h
    | some bag =>
      have hbag' : argumentMembers g m = g.membersAt bag := by simp [argumentMembers, hbag]
      simp only [hbag, fails_bind, fails_pure, and_false, exists_false, or_false] at h
      exact inputValues_justified hvisit hjustified hrun' (hbag' ▸ ha) h

theorem outputFields_justified (hrun : Running g options U d)
    (hr : ∀ m ∈ visible ms, Reaches g listed m.type .output ∧
      ∀ a ∈ visible (argumentMembers g m), Reaches g listed a.type .input)
    (h : Fails (outputFields g options visit label ms []) d e) : Justified g e := by
  have hstep : ∀ m ∈ visible ms, ∀ d x d', Running g options U d → Yields (do
      fieldName m label
      outputField g options visit label m) d x d' → Running g options U d' := by
    intro m hm d x d' hd hx
    simp only [yields_bind, yields_fieldName] at hx
    obtain ⟨_, _, ⟨hpublic, rfl⟩, hx⟩ := hx
    obtain ⟨hinv, hgrows, -⟩ := outputField_makes hvisit (hr m hm).1 (hr m hm).2 hpublic hd.inv hx
    exact hd.goes hinv hgrows
  rw [outputFields_eq] at h
  obtain ⟨m, hm, d', hrun', h⟩ := fails_gather _ hstep h hrun
  simp only [fails_bind, yields_fieldName] at h
  rcases h with h | ⟨_, _, ⟨-, rfl⟩, h⟩
  · exact fieldName_justified h
  · exact outputField_justified hvisit hjustified hrun' (hr m hm).1 (hr m hm).2 h

/-! ### Records and unions -/

theorem recordType_justified {d₀ : Draft} (hrun : Running g options U d)
    (hr : Reaches g listed (.node slot) mode) (hs : g.shapeAt? slot = some s)
    (hms : s.members? = some ms) (hnone : d.at? slot mode = none)
    (hname : CanName g d₀ d mode s n)
    (h : Fails (recordType g options visit slot mode n s.doc ms label) d e) : Justified g e := by
  have hmodeless := isModeless_of_members? hms
  have hunder₀ : ObjectsUnderway g U d₀ :=
    hrun.objects.congr hname.claims.symm hname.made.symm
  have hfields : ∀ {β : Type} {xs : List β} {d : Draft} {f : Draft → Draft}, Fails (do
      if xs.isEmpty then fail label (.noFields label)
      modify f
      return SchemaType.named n : Synth SchemaType) d e → Justified g e := by
    intro β xs d f h
    rw [fails_ite] at h
    rcases h with ⟨-, h⟩ | ⟨-, h⟩
    · have hfault : e = .descriptor ⟨.noFields label, label⟩ := by simpa using h
      rw [hfault]
      exact justified_fault fun _ _ => id
    · simp at h
  simp only [recordType, fails_bind, yields_named] at h
  rcases h with h | ⟨_, _, ⟨-, rfl⟩, h⟩
  · exact named_justified h
  cases mode with
  | input =>
    simp only [fails_bind, fails_note, false_or, yields_note] at h
    rcases h with h | ⟨_, d', hclaim, _, d'', hnote, h⟩
    · exact claim_justified h
    obtain ⟨hinv, hgrows, -, hat, -⟩ :=
      start_yields hrun.inv hr hs hmodeless hnone hname rfl hclaim hnote
    have hrun' : Running g options _ d'' :=
      ⟨hinv, (hunder₀.mono hgrows.toExtends).also hat (by cases ·)⟩
    rcases h with h | ⟨fields, _, -, h⟩
    · exact inputValues_justified hvisit hjustified hrun'
        (fun m hm => hr.mention (.member hs hms hm)) h
    · exact hfields h
  | output =>
    simp only [fails_bind, fails_note, false_or, yields_note] at h
    rcases h with h | ⟨_, d', hclaim, _, d'', hnote, h⟩
    · exact claim_justified h
    obtain ⟨hinv, hgrows, -, hat, hmem⟩ :=
      start_yields hrun.inv hr hs hmodeless hnone hname rfl hclaim hnote
    have hobject : d''.isObject n = true :=
      (Draft.isObject_iff hinv.nodup).mpr ⟨_, hmem, rfl, rfl⟩
    have hrun' : Running g options _ d'' :=
      ⟨hinv, (hunder₀.mono hgrows.toExtends).also hat fun _ _ => hobject⟩
    rcases h with h | ⟨fields, _, -, h⟩
    · exact outputFields_justified hvisit hjustified hrun' (fun m hm =>
        ⟨hr.mention (.member hs hms hm), fun a ha => hr.mention (.argument hs hms hm ha)⟩) h
    · exact hfields h

/-- An alternative is only refused if it is no record. -/
theorem unionMember_justified (hrun : Running g options U d) (hr : Reaches g listed r .output)
    (hrefusable : g.isRecord r = false → IsRefusable g .output label)
    (h : Fails (unionMember g options visit label r) d e) : Justified g e := by
  have hfail : g.isRecord r = false →
      Justified g (.descriptor ⟨.notObjectMember (g.label r) label, label⟩) := by
    rintro hrecord x mode label' ⟨⟩ ⟨rfl, rfl⟩
    exact hrefusable hrecord
  rcases fails_bind.mp h with h | ⟨t, d', ht, h⟩
  · exact typeOf_justified hjustified hrun hr h
  have hmade := typeOf_makes hvisit hrun.inv hr ht
  -- a record that is visited comes back as an object type
  have hobject : g.isRecord r = true → ∃ n, t = .named n ∧ d'.isObject n = true := by
    intro hrecord
    cases r with
    | node slot =>
      obtain ⟨n, hn, htype⟩ := Option.map_eq_some_iff.mp hmade.typeOf
      exact ⟨n, htype.symm, (hrun.makes hmade).isObject_of_isRecord hn hrecord⟩
    | primitive | array | untypedArray | date | foreign => cases hrecord
  cases hrecord : g.isRecord r with
  | true =>
    obtain ⟨n, rfl, hn⟩ := hobject hrecord
    simp [hn] at h
  | false =>
    suffices hfault : e = .descriptor ⟨.notObjectMember (g.label r) label, label⟩ by
      rw [hfault]
      exact hfail hrecord
    cases t with
    | named n =>
      rw [fails_get_bind, fails_ite] at h
      rcases h with ⟨-, h⟩ | ⟨-, h⟩
      · exact absurd h fails_pure
      · exact fails_fail.mp h
    | list | nonNull => exact fails_fail.mp h

theorem unionMembers_justified (hrun : Running g options U d)
    (hr : ∀ r ∈ alternatives, Reaches g listed r .output)
    (hrefusable : ∀ r ∈ alternatives, g.isRecord r = false → IsRefusable g .output label)
    (h : Fails (unionMembers g options visit label alternatives) d e) : Justified g e := by
  have hstep : ∀ r ∈ alternatives, ∀ d n d', Running g options U d →
      Yields (unionMember g options visit label r) d n d' → Running g options U d' := by
    intro r hmem d n d' hd hn
    obtain ⟨hinv, hgrows, -⟩ := unionMember_makes hvisit hd.inv (hr r hmem) hn
    exact hd.goes hinv hgrows
  obtain ⟨r, hmem, d', hrun', h⟩ := Fails.mapM _ hstep h hrun
  exact unionMember_justified hvisit hjustified hrun' (hr r hmem) (hrefusable r hmem) h

theorem namedUnion_justified {d₀ : Draft} (hrun : Running g options U d)
    (hr : Reaches g listed (.node slot) .output)
    (hs : g.shapeAt? slot = some (.union name doc alternatives))
    (htexts : isTexts alternatives = false) (hnone : d.at? slot .output = none)
    (hname : CanName g d₀ d .output (.union name doc alternatives) n)
    (hrefusable : ∀ r ∈ alternatives, g.isRecord r = false → IsRefusable g .output label)
    (h : Fails (do
      named n
      claim ⟨n, doc.map .ofString, .union []⟩ label
      note slot [.output] n
      let members ← unionMembers g options visit label alternatives
      modify fun d => d.define n (.union members)
      return .named n : Synth SchemaType) d e) : Justified g e := by
  have hunder₀ : ObjectsUnderway g U d₀ :=
    hrun.objects.congr hname.claims.symm hname.made.symm
  simp only [fails_bind, fails_note, false_or, fails_modify, fails_pure, and_false, exists_false,
    or_false, yields_named, yields_note] at h
  rcases h with h | ⟨_, _, ⟨-, rfl⟩, h | ⟨_, d', hclaim, _, d'', hnote, h⟩⟩
  · exact named_justified h
  · exact claim_justified h
  · obtain ⟨hinv, hgrows, -, hat, -⟩ :=
      start_yields hrun.inv hr hs htexts hnone hname rfl hclaim hnote
    have hunion : g.isRecord (.node slot) = true → d''.isObject n = true := by
      intro hrecord
      obtain ⟨s, ms, hs', hms⟩ := exists_members?_of_isRecord hrecord
      cases hs.symm.trans hs'
      cases hms
    have hrun' : Running g options _ d'' :=
      ⟨hinv, (hunder₀.mono hgrows.toExtends).also hat fun _ => hunion⟩
    exact unionMembers_justified hvisit hjustified hrun'
      (fun r hmem => hr.mention (.alternative hs htexts hmem)) hrefusable h

theorem objectUnion_justified (hrun : Running g options U d)
    (hr : Reaches g listed (.node slot) .output)
    (hs : g.shapeAt? slot = some (.union name doc alternatives))
    (htexts : isTexts alternatives = false) (hnone : d.at? slot .output = none)
    (hrefusable : ∀ r ∈ alternatives, g.isRecord r = false → IsRefusable g .output label)
    (h : Fails (objectUnion g options visit slot name doc alternatives label) d e) :
    Justified g e := by
  have hown : ownName? .output (.union name doc alternatives) = givenName name := by
    simp [ownName?, htexts]
  cases hgiven : givenName name with
  | some n =>
    simp only [objectUnion, hgiven, pure_bind] at h
    exact namedUnion_justified hvisit hjustified hrun hr hs htexts hnone
      (.of_ownName? d (hown.trans hgiven)) hrefusable h
  | none =>
    simp only [objectUnion, hgiven] at h
    rcases fails_bind.mp h with h | ⟨n, d', hinvent, h⟩
    · exact absurd h fails_invent
    · obtain ⟨hinv, hat, hname⟩ := invent_yields hrun.inv (hown.trans hgiven) rfl hinvent
      have hrun' : Running g options U d' := ⟨hinv, hrun.objects.congr hname.claims hname.made⟩
      exact namedUnion_justified hvisit hjustified hrun' hr hs htexts ((hat _ _).trans hnone) hname
        hrefusable h

theorem unionType_justified {x : Descriptor} (hrun : Running g options U d)
    (hr : Reaches g listed (.node slot) mode) (hx : g[slot]? = some x)
    (hshape : x.shape = .union name doc alternatives) (hnone : d.at? slot mode = none)
    (h : Fails (unionType g options visit slot mode name doc alternatives x.label) d e) :
    Justified g e := by
  have hmem : x ∈ g := List.mem_of_getElem? hx
  have hs : g.shapeAt? slot = some (.union name doc alternatives) :=
    Option.map_eq_some_iff.mpr ⟨x, hx, hshape⟩
  unfold unionType at h
  rw [fails_ite] at h
  rcases h with ⟨-, h⟩ | ⟨htexts, h⟩
  · exact textScalar_justified h
  have htexts : isTexts alternatives = false := Bool.eq_false_iff.mpr htexts
  cases mode with
  | input =>
    rw [fails_fail.mp h]
    rintro y mode label ⟨⟩ ⟨rfl, rfl⟩
    exact ⟨x, hmem, rfl, name, doc, alternatives, hshape, htexts, nofun⟩
  | output =>
    have hrefusable : ∀ r ∈ alternatives, g.isRecord r = false →
        IsRefusable g .output x.label := fun r hr hrecord =>
      ⟨x, hmem, rfl, name, doc, alternatives, hshape, htexts, fun _ => ⟨r, hr, hrecord⟩⟩
    rw [fails_ite] at h
    rcases h with ⟨hprimitive, h⟩ | ⟨-, h⟩
    · rw [fails_fail.mp h]
      rintro y mode label ⟨⟩ ⟨rfl, rfl⟩
      -- a union of nothing would be one of texts
      obtain ⟨r, hr⟩ : ∃ r, r ∈ alternatives := List.exists_mem_of_ne_nil _ <| by
        rintro rfl
        cases htexts
      refine hrefusable r hr ?_
      cases r with
      | primitive => rfl
      | array | untypedArray | date | node | foreign =>
        cases List.all_eq_true.mp hprimitive _ hr
    · exact objectUnion_justified hvisit hjustified hrun hr hs htexts hnone hrefusable h

/-! ### Slots -/

theorem makeType_justified {x : Descriptor} (hrun : Running g options U d)
    (hr : Reaches g listed (.node slot) mode) (hx : g[slot]? = some x)
    (hnone : d.at? slot mode = none) (h : Fails (makeType g options visit slot mode x) d e) :
    Justified g e := by
  have hs : g.shapeAt? slot = some x.shape := Option.map_eq_some_iff.mpr ⟨_, hx, rfl⟩
  unfold makeType at h
  cases hshape : x.shape with
  | record name doc ms =>
    rw [hshape] at h hs
    exact recordType_justified hvisit hjustified hrun hr hs rfl hnone (.of_ownName? d rfl) h
  | inlineRecord location doc ms =>
    rw [hshape] at h hs
    have hown : ownName? mode (.inlineRecord location doc ms) =
        (typenameOf ms).map fun text => text ++ ending mode := by
      rw [ownName?, typenameOf_eq]
    simp only [inlineName] at h
    cases htypename : typenameOf ms with
    | some text =>
      simp only [htypename, pure_bind] at h
      rw [htypename] at hown
      exact recordType_justified hvisit hjustified hrun hr hs rfl hnone (.of_ownName? d hown) h
    | none =>
      simp only [htypename, bind_assoc] at h
      rw [htypename] at hown
      rcases fails_bind.mp h with h | ⟨n, d', hinvent, h⟩
      · exact absurd h fails_invent
      obtain ⟨hinv, hat, hname⟩ := invent_yields hrun.inv hown rfl hinvent
      simp only [fails_bind, fails_record, yields_record, yields_pure, fails_pure, false_or] at h
      obtain ⟨_, _, rfl, _, _, ⟨rfl, rfl⟩, h⟩ := h
      have hrun' : Running g options U { d' with
          latestEvents := .named x.tag n :: d'.latestEvents } :=
        ⟨hinv.recorded _, hrun.objects.congr hname.claims hname.made⟩
      exact recordType_justified hvisit hjustified hrun' hr hs rfl ((hat _ _).trans hnone)
        (hname.recorded _) h
  | union name doc alternatives =>
    rw [hshape] at h
    exact unionType_justified hvisit hjustified hrun hr hx hshape hnone h
  | enumeration name doc members =>
    rw [hshape] at h
    exact enumType_justified h

theorem visitStep_justified : VisitsJustified g listed options (visitStep g options visit) := by
  intro slot mode U d e hrun hr h
  simp only [visitStep, fails_get_bind] at h
  cases hat : d.at? slot mode with
  | some n =>
    have hlookup : d.made.lookup (slot, mode) = some n := hat
    simp [hlookup] at h
  | none =>
    have hlookup : d.made.lookup (slot, mode) = none := hat
    simp only [hlookup] at h
    cases hx : g[slot]? with
    | none =>
      simp only [hx] at h
      exact fail_justified h fun _ _ => id
    | some x =>
      simp only [hx] at h
      rcases fails_bind.mp h with h | ⟨_, _, hstart, h⟩
      · exact absurd h fails_modify
      obtain rfl := yields_start.mp hstart
      have hgrows : Grows g listed options d _ := .started d slot mode
      exact makeType_justified hvisit hjustified (hrun.goes (hrun.inv.started slot mode) hgrows) hr
        hx hat h

end Step

/-- **Visits.** However deep visits may be nested, one that fails refuses no union without a
reason. -/
theorem visit_justified (depth : Nat) :
    VisitsJustified g listed options (visit g options depth) := by
  induction depth with
  | zero =>
    intro slot mode U d e _ _ h
    rw [fails_throw.mp h]
    exact justified_endless
  | succ depth ih => exact visitStep_justified (visit_makes depth) ih

/-! ### The run -/

theorem findRoots_justified {roots : Roots} (h : Fails (findRoots g listed roots) d e) :
    Justified g e := by
  induction listed generalizing roots with
  | nil => exact absurd h fails_pure
  | cons r rest ih =>
    unfold findRoots at h
    split at h
    · simp only [fails_ite, fails_fail] at h
      rcases h with ⟨-, ⟨-, rfl⟩ | ⟨-, h⟩⟩ | ⟨-, ⟨-, ⟨-, rfl⟩ | ⟨-, h⟩⟩ | ⟨-, h⟩⟩
      · exact justified_fault fun _ _ => id
      · exact ih h
      · exact justified_fault fun _ _ => id
      · exact ih h
      · exact ih h
    · exact ih h

theorem rootType_justified {root : String} {slot : Option Nat} (hrun : Running g options U d)
    (hr : ∀ slot', slot = some slot' → Reaches g listed (.node slot') .output)
    (h : Fails (rootType g options root slot) d e) : Justified g e := by
  cases slot with
  | none => exact absurd h fails_pure
  | some slot =>
    simp only [rootType, fails_bind, fails_record, yields_record, fails_pure, and_false,
      exists_false, or_false, false_or] at h
    obtain ⟨_, _, rfl, h⟩ := h
    have hgrows : Grows g listed options d _ := .recorded d (.resolvingRoot root)
    exact visit_justified _ (hrun.goes (hrun.inv.recorded _) hgrows) (hr slot rfl) h

theorem run_justified (h : Fails (run g listed options) Draft.empty e) : Justified g e := by
  simp only [run, fails_bind] at h
  rcases h with h | ⟨roots, d, hroots, h⟩
  · exact findRoots_justified h
  obtain ⟨rfl, hquery, hmutation⟩ := yields_findRoots hroots
  have hreach : ∀ {name : String} {old : Option Nat}, FoundRoot g listed name none old →
      (∀ {slot}, IsRoot g listed name slot → Reaches g listed (.node slot) .output) →
      ∀ slot, old = some slot → Reaches g listed (.node slot) .output := by
    intro name old hfound hroot slot hslot
    exact hroot (((hfound slot).mp hslot).resolve_left nofun)
  rw [fails_ite] at h
  rcases h with ⟨-, h⟩ | ⟨-, h⟩
  · have hfault : e = .descriptor ⟨.noRoot, "<schema>"⟩ := by simpa using h
    rw [hfault]
    exact justified_fault fun _ _ => id
  · simp only [fails_bind, fails_get, fails_record, fails_pure, and_false, exists_false,
      or_false] at h
    rcases h with h | ⟨query, d, hq, h⟩
    · exact rootType_justified .empty (hreach hquery .query) h
    · obtain ⟨hinv, hgrows, -⟩ := rootType_makes Inv.empty (hreach hquery .query) hq
      exact rootType_justified (Running.empty.goes hinv hgrows) (hreach hmutation .mutation) h

/-- **Only unions that may be refused are.** -/
theorem isRefusable_of_synthesize {x : SynthesisError}
    (h : synthesize g options = .error (.descriptor x))
    (hrefuses : RefusesUnion mode label x.fault) : IsRefusable g mode label :=
  run_justified ⟨_, Prod.ext h rfl⟩ x mode label rfl hrefuses

end Synthesis

end DeclaredSchema
