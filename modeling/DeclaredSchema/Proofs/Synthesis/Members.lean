import DeclaredSchema.Proofs.Step
import DeclaredSchema.Proofs.Synthesis.Invariant

/-!
# What a successful step makes

A step of a synthesis that succeeds keeps the invariant, and the type that it makes is from then on
the one that the draft knows. The functions of a step are proved to do so for any function that
visits slots in this way. Here these are the scalars, the uses of types, and the members of records.

## Main definitions

* `Makes` — what a successful step brings about
* `Visits` — a way to visit slots that does so
* `gather` — fields and arguments alike

## Main results

* `yields_claim`, `yields_invent` — when single steps succeed, and what they leave
* `typeOf_makes` — uses of types
* `gather_yields`, `inputValues_makes`, `outputFields_makes` — members
-/

namespace DeclaredSchema

namespace Synthesis

/-- The step from `d` to `d'` has made the type `t` of `r`, and left underway what was so before. -/
structure Makes (g : Graph) (listed : List TypeRef) (options : CompileOptions)
    (U : Nat → Mode → Prop) (d d' : Draft) (r : TypeRef) (mode : Mode) (t : SchemaType) : Prop where
  inv : Inv g options U d'
  grows : Grows g listed options d d'
  typeOf : d'.typeOf? options mode r = some t

/-- Every successful visit of something reachable makes its type. -/
def Visits (g : Graph) (listed : List TypeRef) (options : CompileOptions)
    (visit : Nat → Mode → Synth SchemaType) : Prop :=
  ∀ {slot mode U d t d'}, Inv g options U d → Reaches g listed (.node slot) mode →
    Yields (visit slot mode) d t d' → Makes g listed options U d d' (.node slot) mode t

variable {g : Graph} {listed : List TypeRef} {options : CompileOptions} {U : Nat → Mode → Prop}
  {d d' : Draft} {u : PUnit}

/-! ### Single steps -/

@[simp] theorem yields_fail {α : Type} {label : String} {fault : SynthesisFault} {a : α} :
    ¬ Yields (fail label fault) d a d' :=
  yields_throw

@[simp] theorem yields_record {event : Event} :
    Yields (record event) d u d' ↔ d' = { d with latestEvents := event :: d.latestEvents } :=
  yields_modify

theorem Inv.recorded (h : Inv g options U d) (event : Event) :
    Inv g options U { d with latestEvents := event :: d.latestEvents } :=
  h.congr rfl rfl rfl (Nat.le_refl _)

theorem Grows.recorded (d : Draft) (event : Event) :
    Grows g listed options d { d with latestEvents := event :: d.latestEvents } :=
  .of_types_eq ⟨List.prefix_refl _, List.prefix_refl _, Nat.le_refl _⟩ rfl rfl

@[simp] theorem yields_start {slot : Nat} {mode : Mode} : Yields (start slot mode) d u d' ↔
    d' = { d with latestStarts := (slot, mode) :: d.latestStarts } :=
  yields_modify

theorem Inv.started (h : Inv g options U d) (slot : Nat) (mode : Mode) :
    Inv g options U { d with latestStarts := (slot, mode) :: d.latestStarts } :=
  h.congr rfl rfl rfl (Nat.le_refl _)

theorem Grows.started (d : Draft) (slot : Nat) (mode : Mode) :
    Grows g listed options d { d with latestStarts := (slot, mode) :: d.latestStarts } :=
  .of_types_eq ⟨List.prefix_refl _, List.prefix_refl _, Nat.le_refl _⟩ rfl rfl

@[simp] theorem yields_note {slot : Nat} {modes : List Mode} {n : String} :
    Yields (note slot modes n) d u d' ↔ d' = noted d slot modes n :=
  yields_modify

@[simp] theorem yields_invent {start n : String} :
    Yields (invent start) d n d' ↔
      n = start ++ toString (d.invented + 1) ∧ d' = { d with invented := d.invented + 1 } := by
  simp only [invent, yields_bind, yields_get, yields_set, yields_pure]
  constructor
  · rintro ⟨_, _, ⟨rfl, rfl⟩, _, _, rfl, rfl, rfl⟩
    exact ⟨rfl, rfl⟩
  · rintro ⟨rfl, rfl⟩
    exact ⟨_, _, ⟨rfl, rfl⟩, ⟨⟩, _, rfl, rfl, rfl⟩

theorem yields_named {n : String} : Yields (named n) d u d' ↔ isName n = true ∧ d' = d := by
  rw [named, ← checkName_eq_ok_iff]
  cases hcheck : checkName n with
  | ok => simp [eq_comm]
  | error fault => simp

theorem yields_claim {v : NamedType} {label : String} :
    Yields (claim v label) d u d' ↔ isPublicName v.name = true ∧
      (d.owner? v.name = none ∧ d' = { d with claims := d.claims ++ [⟨v, label⟩] } ∨
        d.owner? v.name ≠ none ∧ v = dateType ∧ (d.claim? v.name).map Claim.type = some dateType ∧
          d' = d) := by
  cases hpublic : isPublicName v.name with
  | false => simp [claim, hpublic]
  | true =>
    simp only [claim, hpublic, Bool.not_true, Bool.false_eq_true, if_false, yields_get_bind]
    cases howner : d.owner? v.name with
    | none => simp
    | some owner => simp [yields_ite, and_assoc, eq_comm]

theorem yields_claim_of_ne {v : NamedType} {label : String} (hdate : v.definition ≠ .scalar .date)
    (h : Yields (claim v label) d u d') : isPublicName v.name = true ∧ d.owner? v.name = none ∧
      d' = { d with claims := d.claims ++ [⟨v, label⟩] } := by
  obtain ⟨hpublic, ⟨hfree, rfl⟩ | ⟨-, rfl, -⟩⟩ := yields_claim.mp h
  · exact ⟨hpublic, hfree, rfl⟩
  · exact absurd rfl hdate

/-- A name that no scalar has is claimed for the first time, if it can be claimed at all. -/
theorem yields_claim_of_new {v : NamedType} {label : String} (hnew : d.isScalar v.name = false)
    (h : Yields (claim v label) d u d') : isPublicName v.name = true ∧ d.owner? v.name = none ∧
      d' = { d with claims := d.claims ++ [⟨v, label⟩] } := by
  obtain ⟨hpublic, ⟨hfree, rfl⟩ | ⟨-, -, hdate, -⟩⟩ := yields_claim.mp h
  · exact ⟨hpublic, hfree, rfl⟩
  · obtain ⟨c, hc, hdate⟩ := Option.map_eq_some_iff.mp hdate
    simp [Draft.isScalar, hc, hdate, dateType, TypeDefinition.isScalar] at hnew

/-! ### Scalars -/

/-- A new entry of the table is what something reachable has become, once the draft says so. -/
theorem Grows.of_claim {c : Claim} {r : TypeRef} {mode : Mode}
    (hclaims : d'.claims = d.claims ++ [c]) (hmade : d.made <+: d'.made)
    (hinvented : d'.invented = d.invented) (hr : Reaches g listed r mode)
    (htype : d'.typeOf? options mode r = some (.named c.type.name)) :
    Grows g listed options d d' where
  claims := hclaims ▸ List.prefix_append _ _
  made := hmade
  invented := Nat.le_of_eq hinvented.symm
  issued _ hlt hle := absurd hlt (Nat.not_lt.mpr (hinvented ▸ hle))
  origin w hw := by
    rw [Draft.types, hclaims, List.map_append, List.map_singleton, List.mem_append,
      List.mem_singleton] at hw
    rcases hw with hw | rfl
    · exact .inl (List.mem_map_of_mem hw)
    · exact .inr ⟨r, mode, hr, htype⟩

theorem yields_customScalar? {p : Primitive} {c : Option CustomScalar}
    (h : Yields (customScalar? options p) d c d') :
    c = customOf? options p ∧ ∃ calls, d' = { d with latestCalls := calls } := by
  unfold customScalar? at h
  unfold customOf?
  cases hraw : options.scalar? p.raw with
  | some s =>
    simp only [hraw, Option.orElse_some, yields_pure] at h
    exact ⟨h.1.symm, d.latestCalls, h.2.symm⟩
  | none =>
    cases hname : options.scalar? p.name with
    | some s =>
      simp only [hraw, hname, Option.orElse_none, yields_pure] at h
      exact ⟨h.1.symm, d.latestCalls, h.2.symm⟩
    | none =>
      cases hfactory : options.factory with
      | none =>
        simp only [hraw, hname, hfactory, Option.orElse_none, yields_pure] at h
        exact ⟨h.1.symm, d.latestCalls, h.2.symm⟩
      | some make =>
        simp only [hraw, hname, hfactory, Option.orElse_none, yields_bind, yields_modify] at h
        obtain ⟨_, _, rfl, h⟩ := h
        cases hmade : make p with
        | error fault =>
          simp only [hmade] at h
          exact absurd h yields_throw
        | ok s =>
          simp only [hmade, yields_pure] at h
          exact ⟨by simp [← h.1, hmade, Except.toOption], _, h.2.symm⟩

theorem primitive_makes {p : Primitive} {mode : Mode} {t : SchemaType} (hinv : Inv g options U d)
    (hr : Reaches g listed (.primitive p) mode) (h : Yields (primitive options p) d t d') :
    Makes g listed options U d d' (.primitive p) mode t := by
  have hbuiltIn : ∀ b : BuiltIn, ∀ d : Draft, d.isScalar b.name = true := fun b d => by
    simp [Draft.isScalar, BuiltIn.ofName?_name]
  unfold primitive at h
  rw [yields_ite] at h
  rcases h with ⟨hid, h⟩ | ⟨hid, h⟩
  · obtain ⟨rfl, rfl⟩ := yields_pure.mp h
    refine ⟨hinv, .refl _, ?_⟩
    simp [Draft.typeOf?, scalarNameOf?, hid, hbuiltIn]
  · rw [yields_bind] at h
    obtain ⟨c, e, hc, h⟩ := h
    obtain ⟨rfl, calls, rfl⟩ := yields_customScalar? hc
    have hinv' : Inv g options U { d with latestCalls := calls } :=
      hinv.congr rfl rfl rfl (Nat.le_refl _)
    have hgrows : Grows g listed options d { d with latestCalls := calls } :=
      .of_types_eq ⟨List.prefix_refl _, List.prefix_refl _, Nat.le_refl _⟩ rfl rfl
    cases hcustom : customOf? options p with
    | some s =>
      have hname : scalarNameOf? options p = some s.name := by
        simp [scalarNameOf?, hid, hcustom]
      cases hscalar : Draft.isScalar { d with latestCalls := calls } s.name with
      | true =>
        simp only [hcustom, yields_get_bind, hscalar] at h
        obtain ⟨rfl, rfl⟩ := yields_pure.mp h
        refine ⟨hinv', hgrows, ?_⟩
        simp [Draft.typeOf?, hname, hscalar]
      | false =>
        simp only [hcustom, yields_get_bind, hscalar] at h
        obtain ⟨_, e, hclaim, h⟩ := yields_bind.mp h
        obtain ⟨rfl, rfl⟩ := yields_pure.mp h
        obtain ⟨hpublic, hfree, rfl⟩ := yields_claim_of_new (v := customType s) hscalar hclaim
        have hinv'' := hinv'.claim p.label hpublic hfree
        have htype : Draft.typeOf? options { d with
            claims := d.claims ++ [⟨customType s, p.label⟩], latestCalls := calls } mode
            (.primitive p) = some (.named s.name) := by
          have hnow := (Draft.isScalar_iff (n := s.name) hinv''.nodup).mpr
            (.inr ⟨customType s, by simp [Draft.types], rfl, rfl⟩)
          simp [Draft.typeOf?, hname, hnow]
        exact ⟨hinv'', hgrows.trans (.of_claim rfl (List.prefix_refl _) rfl hr htype),
          htype⟩
    | none =>
      simp only [hcustom] at h
      cases hb : builtIn? p with
      | none =>
        simp only [hb] at h
        exact absurd h yields_fail
      | some b =>
        simp only [hb, yields_pure] at h
        obtain ⟨rfl, rfl⟩ := h
        refine ⟨hinv', hgrows, ?_⟩
        simp [Draft.typeOf?, scalarNameOf?, hid, hcustom, hb, hbuiltIn]

theorem date_makes {mode : Mode} (hinv : Inv g options U d) (hr : Reaches g listed .date mode)
    (h : Yields (claim dateType "Date") d u d') :
    Makes g listed options U d d' .date mode (.named Date.name) := by
  obtain ⟨hpublic, ⟨hfree, rfl⟩ | ⟨-, -, hdate, rfl⟩⟩ := yields_claim.mp h
  · have hmem : dateType ∈ Draft.types { d with claims := d.claims ++ [⟨dateType, "Date"⟩] } := by
      simp [Draft.types]
    have htype : Draft.typeOf? options { d with claims := d.claims ++ [⟨dateType, "Date"⟩] } mode
        .date = some (.named Date.name) := if_pos hmem
    exact ⟨hinv.claim _ hpublic hfree,
      .of_claim rfl (List.prefix_refl _) rfl hr htype, htype⟩
  · obtain ⟨c, hc, hdate⟩ := Option.map_eq_some_iff.mp hdate
    obtain ⟨hmem, -⟩ := (Draft.claim?_eq_some_iff hinv.nodup).mp hc
    have hmem : dateType ∈ d'.types := hdate ▸ Draft.mem_types_of_mem_claims hmem
    exact ⟨hinv, .refl _, if_pos hmem⟩

/-! ### Uses of types -/

section Step

variable {visit : Nat → Mode → Synth SchemaType}

theorem typeOf_makes (hvisit : Visits g listed options visit) {r : TypeRef} {mode : Mode}
    {t : SchemaType} (hinv : Inv g options U d) (hr : Reaches g listed r mode)
    (h : Yields (typeOf options visit mode r) d t d') :
    Makes g listed options U d d' r mode t := by
  induction r generalizing t with
  | primitive p => exact primitive_makes hinv hr h
  | array element ih =>
    simp only [typeOf, yields_bind, yields_pure] at h
    obtain ⟨u, e, hu, rfl, rfl⟩ := h
    have hmade := ih hr.element hu
    refine ⟨hmade.inv, hmade.grows, ?_⟩
    rw [Draft.typeOf?, hmade.typeOf, Option.map_some, Draft.required_of_typeOf? hmade.typeOf]
  | untypedArray => exact absurd h yields_fail
  | date =>
    simp only [typeOf, yields_bind, yields_pure] at h
    obtain ⟨_, e, hclaim, rfl, rfl⟩ := h
    exact date_makes hinv hr hclaim
  | node slot => exact hvisit hinv hr h
  | foreign text => exact absurd h yields_fail

/-! ### Members

Fields and arguments are gathered in the same way: members that only name a record are passed over,
and the others are put into a table by their names. -/

/-- Gathers what the members become for which there is a step. -/
def gather {α : Type} (key : α → String) (make : Member → Synth α) :
    List Member → List α → Synth (List α)
  | [], acc => return acc
  | m :: rest, acc =>
    if m.name = typenameMember then gather key make rest acc
    else do
      let x ← make m
      gather key make rest (insertByKey key x acc)

/-- The argument that a member becomes. -/
def inputValue (options : CompileOptions) (visit : Nat → Mode → Synth SchemaType) (owner : String)
    (m : Member) : Synth InputValue := do
  fieldName m owner
  let type ← typeOf options visit .input m.type
  return ⟨m.name, type.withNull m.nullable, m.default, m.doc⟩

theorem inputValues_eq (owner : String) (ms : List Member) (acc : List InputValue) :
    inputValues options visit owner ms acc =
      gather InputValue.name (inputValue options visit owner) ms acc := by
  induction ms generalizing acc with
  | nil => rfl
  | cons m rest ih => simp [inputValues, gather, inputValue, ih]

theorem outputFields_eq (owner : String) (ms : List Member) (acc : List Field) :
    outputFields g options visit owner ms acc =
      gather Field.name (fun m => do
        fieldName m owner
        outputField g options visit owner m) ms acc := by
  induction ms generalizing acc with
  | nil => rfl
  | cons m rest ih => simp [outputFields, gather, ih]

/-- **Gathering.** If the step of a member makes its image and keeps the invariant, the members that
count become their images. -/
theorem gather_yields {α : Type} {key : α → String} {make : Member → Synth α}
    (image : Draft → Member → α) (Done : Draft → Member → Prop)
    (hkey : ∀ d m, key (image d m) = m.name)
    (hdone : ∀ {d d' : Draft} {m}, d.Extends d' → Done d m → Done d' m ∧ image d' m = image d m)
    {ms : List Member} (hstep : ∀ m ∈ visible ms, ∀ {d x d'}, Inv g options U d →
      Yields (make m) d x d' → Inv g options U d' ∧ Grows g listed options d d' ∧ Done d' m ∧
        x = image d' m)
    (hinv : Inv g options U d) {xs : List α} (h : Yields (gather key make ms []) d xs d') :
    Inv g options U d' ∧ Grows g listed options d d' ∧ (∀ m ∈ visible ms, Done d' m) ∧
      xs = (counted ms).map (image d') := by
  have hmain : ∀ {ms : List Member}, (∀ m ∈ visible ms, ∀ {d x d'}, Inv g options U d →
      Yields (make m) d x d' → Inv g options U d' ∧ Grows g listed options d d' ∧ Done d' m ∧
        x = image d' m) → ∀ {acc d}, Inv g options U d → Yields (gather key make ms acc) d xs d' →
      Inv g options U d' ∧ Grows g listed options d d' ∧ (∀ m ∈ visible ms, Done d' m) ∧
        xs = ((visible ms).map (image d')).foldl (fun table x => insertByKey key x table) acc := by
    intro ms hstep
    induction ms with
    | nil =>
      intro acc d hinv h
      obtain ⟨rfl, rfl⟩ := yields_pure.mp h
      exact ⟨hinv, .refl _, fun m hm => absurd hm List.not_mem_nil, rfl⟩
    | cons m rest ih =>
      intro acc d hinv h
      rw [gather, yields_ite] at h
      rcases h with ⟨hname, h⟩ | ⟨hname, h⟩
      · rw [visible_cons, if_pos hname] at hstep ⊢
        exact ih hstep hinv h
      · rw [visible_cons, if_neg hname] at hstep ⊢
        obtain ⟨x, e, hx, h⟩ := yields_bind.mp h
        obtain ⟨hinv', hgrows, hm, rfl⟩ := hstep m (List.mem_cons_self ..) hinv hx
        obtain ⟨hinv'', hgrows', hrest, rfl⟩ :=
          ih (fun m' hm' => hstep m' (List.mem_cons_of_mem _ hm')) hinv' h
        obtain ⟨hm', himage⟩ := hdone hgrows'.toExtends hm
        refine ⟨hinv'', hgrows.trans hgrows', ?_, ?_⟩
        · intro m' hmem
          rcases List.mem_cons.mp hmem with rfl | hmem
          · exact hm'
          · exact hrest m' hmem
        · rw [List.map_cons, List.foldl_cons, himage]
  obtain ⟨hinv', hgrows, hall, rfl⟩ := hmain hstep hinv h
  refine ⟨hinv', hgrows, hall, ?_⟩
  rw [foldl_insertByKey, lastOfEach_map (hkey d'), counted]

theorem yields_fieldName {m : Member} {owner : String} :
    Yields (fieldName m owner) d u d' ↔ isPublicName m.name = true ∧ d' = d := by
  cases hpublic : isPublicName m.name <;> simp [fieldName, hpublic, eq_comm]

/-- The member can be an argument, and its type is known. -/
def IsArgument (options : CompileOptions) (d : Draft) (m : Member) : Prop :=
  isPublicName m.name = true ∧ ∃ t, d.typeOf? options .input m.type = some t

/-- The member can be a field, and so can its arguments. -/
def IsField (g : Graph) (options : CompileOptions) (d : Draft) (m : Member) : Prop :=
  isPublicName m.name = true ∧ (∃ t, d.typeOf? options .output m.type = some t) ∧
    ∀ a ∈ visible (argumentMembers g m), IsArgument options d a

theorem IsArgument.extends {m : Member} (h : IsArgument options d m) (hext : d.Extends d') :
    IsArgument options d' m ∧
      argumentImage (d'.image options) m = argumentImage (d.image options) m := by
  obtain ⟨hpublic, t, ht⟩ := h
  refine ⟨⟨hpublic, t, hext.typeOf? ht⟩, ?_⟩
  rw [argumentImage, argumentImage, hext.image_eq ht]

theorem IsField.extends {m : Member} (h : IsField g options d m) (hext : d.Extends d') :
    IsField g options d' m ∧
      fieldImage g (d'.image options) m = fieldImage g (d.image options) m := by
  obtain ⟨hpublic, ⟨t, ht⟩, hargs⟩ := h
  refine ⟨⟨hpublic, ⟨t, hext.typeOf? ht⟩, fun a ha => ((hargs a ha).extends hext).1⟩, ?_⟩
  have hmap : (counted (argumentMembers g m)).map (argumentImage (d'.image options)) =
      (counted (argumentMembers g m)).map (argumentImage (d.image options)) :=
    List.map_congr_left fun a ha => ((hargs a (mem_visible_of_mem_counted ha)).extends hext).2
  rw [fieldImage, fieldImage, hext.image_eq ht, hmap]

theorem inputValues_makes (hvisit : Visits g listed options visit) {owner : String}
    {ms : List Member} {vs : List InputValue}
    (hr : ∀ m ∈ visible ms, Reaches g listed m.type .input) (hinv : Inv g options U d)
    (h : Yields (inputValues options visit owner ms []) d vs d') :
    Inv g options U d' ∧ Grows g listed options d d' ∧
      (∀ m ∈ visible ms, IsArgument options d' m) ∧
      vs = (counted ms).map (argumentImage (d'.image options)) := by
  rw [inputValues_eq] at h
  refine gather_yields (fun d => argumentImage (d.image options)) (IsArgument options)
    (fun _ _ => rfl) (fun hext hm => hm.extends hext) ?_ hinv h
  intro m hm d x d' hinv hx
  simp only [inputValue, yields_bind, yields_fieldName, yields_pure] at hx
  obtain ⟨_, e, ⟨hpublic, rfl⟩, t, e', ht, rfl, rfl⟩ := hx
  have hmade := typeOf_makes hvisit hinv (hr m hm) ht
  refine ⟨hmade.inv, hmade.grows, ⟨hpublic, t, hmade.typeOf⟩, ?_⟩
  rw [argumentImage, Draft.image_eq hmade.typeOf, Draft.withNull_of_typeOf? hmade.typeOf]

theorem outputField_makes (hvisit : Visits g listed options visit) {owner : String} {m : Member}
    {f : Field} (hr : Reaches g listed m.type .output)
    (ha : ∀ a ∈ visible (argumentMembers g m), Reaches g listed a.type .input)
    (hpublic : isPublicName m.name = true) (hinv : Inv g options U d)
    (h : Yields (outputField g options visit owner m) d f d') :
    Inv g options U d' ∧ Grows g listed options d d' ∧ IsField g options d' m ∧
      f = fieldImage g (d'.image options) m := by
  obtain ⟨t, e, ht, h⟩ := yields_bind.mp h
  have hmade := typeOf_makes hvisit hinv hr ht
  cases hbag : m.arguments with
  | none =>
    simp only [hbag, yields_bind, yields_pure] at h
    obtain ⟨_, _, ⟨rfl, rfl⟩, rfl, rfl⟩ := h
    have hnone : argumentMembers g m = [] := by simp [argumentMembers, hbag]
    refine ⟨hmade.inv, hmade.grows, ⟨hpublic, ⟨t, hmade.typeOf⟩, ?_⟩, ?_⟩
    · rw [hnone]
      exact fun a ha => absurd ha List.not_mem_nil
    · rw [fieldImage, hnone, Draft.image_eq hmade.typeOf, Draft.withNull_of_typeOf? hmade.typeOf]
      rfl
  | some bag =>
    simp only [hbag, yields_bind, yields_pure] at h
    obtain ⟨vs, e', hvs, rfl, rfl⟩ := h
    have hbag' : argumentMembers g m = g.membersAt bag := by simp [argumentMembers, hbag]
    rw [hbag'] at ha
    obtain ⟨hinv', hgrows, hall, rfl⟩ := inputValues_makes hvisit ha hmade.inv hvs
    refine ⟨hinv', hmade.grows.trans hgrows,
      ⟨hpublic, ⟨t, hgrows.typeOf? hmade.typeOf⟩, hbag' ▸ hall⟩, ?_⟩
    rw [fieldImage, hbag', hgrows.image_eq hmade.typeOf, Draft.image_eq hmade.typeOf,
      Draft.withNull_of_typeOf? hmade.typeOf]

theorem outputFields_makes (hvisit : Visits g listed options visit) {owner : String}
    {ms : List Member} {fs : List Field} (hr : ∀ m ∈ visible ms, Reaches g listed m.type .output ∧
      ∀ a ∈ visible (argumentMembers g m), Reaches g listed a.type .input)
    (hinv : Inv g options U d) (h : Yields (outputFields g options visit owner ms []) d fs d') :
    Inv g options U d' ∧ Grows g listed options d d' ∧ (∀ m ∈ visible ms, IsField g options d' m) ∧
      fs = (counted ms).map (fieldImage g (d'.image options)) := by
  rw [outputFields_eq] at h
  refine gather_yields (fun d => fieldImage g (d.image options)) (IsField g options)
    (fun _ _ => rfl) (fun hext hm => hm.extends hext) ?_ hinv h
  intro m hm d x d' hinv hx
  simp only [yields_bind, yields_fieldName] at hx
  obtain ⟨_, e, ⟨hpublic, rfl⟩, hx⟩ := hx
  exact outputField_makes hvisit (hr m hm).1 (hr m hm).2 hpublic hinv hx

end Step

end Synthesis

end DeclaredSchema
