import DeclaredSchema.Proofs.Synthesis.Run

/-!
# Names and positions in a schema

When a schema is put together from the types that were made, two things could still go wrong: two
types could share a name, or a type could stand where types of its mode cannot. Neither can happen
after a synthesis that succeeds, however its records, unions, enumerations, texts and custom scalars
come by their names, and in whatever order they claim them.

## Main definitions

* `Schema.Fits` — a type can be used in a mode
* `Sound` — names are distinct and public, numbers are given once, and types are where they can be

## Main results

* `sound_of_synthesis` — the schemas that are made are sound
-/

namespace DeclaredSchema

/-! ### What fits where -/

/-- Whether a definition can be used in a mode: scalars and enumerations in both. -/
def TypeDefinition.fits : Mode → TypeDefinition → Bool
  | .output, .inputObject _ => false
  | .input, .object _ | .input, .union _ => false
  | _, _ => true

/-- The names of the fields of a definition and of their arguments. -/
def TypeDefinition.memberNames : TypeDefinition → List String
  | object fields => fields.flatMap fun f => f.name :: f.arguments.map InputValue.name
  | inputObject fields => fields.map InputValue.name
  | _ => []

/-- A type, without its wrappings, is a built-in scalar or an entry of the table that can be used in
the mode. -/
def Schema.Fits (schema : Schema) (mode : Mode) (t : SchemaType) : Prop :=
  (BuiltIn.ofName? t.baseName).isSome = true ∨
    ∃ u ∈ schema.types, u.name = t.baseName ∧ u.definition.fits mode = true

theorem TypeDefinition.fits_of_isScalar {definition : TypeDefinition} (mode : Mode)
    (h : definition.isScalar = true) : definition.fits mode = true := by
  cases definition with
  | scalar kind => cases mode <;> rfl
  | object | inputObject | union | enumeration => cases h

namespace Synthesis

@[simp] theorem baseName_wrapped (m : Member) (t : SchemaType) :
    (wrapped m t).baseName = t.baseName := by
  unfold wrapped
  split <;> rfl

/-- The image of a well-formed shape can be used in the mode that it is made for. -/
theorem fits_definitionImage {g : Graph} {T : TypeRef → Mode → SchemaType} {mode : Mode} {s : Shape}
    (h : WellFormed g mode s) : (definitionImage g T mode s).fits mode = true := by
  cases s with
  | record name doc ms => cases mode <;> rfl
  | inlineRecord location doc ms => cases mode <;> rfl
  | enumeration name doc members => cases mode <;> rfl
  | union name doc alternatives =>
    rw [definitionImage]
    cases mode with
    | input =>
      rw [if_pos (h.inputUnion rfl name doc alternatives rfl)]
      rfl
    | output => split <;> rfl

/-- The members of the image of a well-formed shape have public names. -/
theorem public_of_mem_memberNames {g : Graph} {T : TypeRef → Mode → SchemaType} {mode : Mode}
    {s : Shape} (h : WellFormed g mode s) {name : String}
    (hname : name ∈ (definitionImage g T mode s).memberNames) : isPublicName name = true := by
  have hrecord : ∀ ms, s.members? = some ms → isPublicName name = true := by
    intro ms hms
    rw [definitionImage_of_members? hms] at hname
    cases mode with
    | input =>
      simp only [recordImage, TypeDefinition.memberNames, List.mem_map] at hname
      obtain ⟨_, ⟨m, hm, rfl⟩, rfl⟩ := hname
      exact h.fields ms hms m (mem_visible_of_mem_counted hm)
    | output =>
      simp only [recordImage, TypeDefinition.memberNames, List.mem_flatMap, List.mem_map,
        List.mem_cons] at hname
      obtain ⟨_, ⟨m, hm, rfl⟩, rfl | ⟨_, ha, rfl⟩⟩ := hname
      · exact h.fields ms hms m (mem_visible_of_mem_counted hm)
      · obtain ⟨a, hcounted, rfl⟩ := List.mem_map.mp ha
        exact h.arguments rfl ms hms m (mem_visible_of_mem_counted hm) a
          (mem_visible_of_mem_counted hcounted)
  cases s with
  | record name doc ms => exact hrecord ms rfl
  | inlineRecord location doc ms => exact hrecord ms rfl
  | enumeration name doc members => cases hname
  | union name doc alternatives =>
    rw [definitionImage] at hname
    split at hname <;> cases hname

/-- The slot holds a record. -/
def IsRecordAt (g : Graph) (slot : Nat) : Prop :=
  ∃ s ms, g.shapeAt? slot = some s ∧ s.members? = some ms

/-- The schema and the draft that it was made from are sound. What a slot has become in a mode is
`d.at? slot mode`. -/
structure Sound (g : Graph) (listed : List TypeRef) (d : Draft) (schema : Schema) : Prop where
  /-- What is reachable has become a type of the schema. -/
  made : ∀ {slot mode}, Reaches g listed (.node slot) mode → ∃ n, d.at? slot mode = some n
  present : ∀ {slot mode n}, d.at? slot mode = some n → ∃ u ∈ schema.types, u.name = n
  /-- A record is another type in every mode, and no two records are the same type. -/
  apart : ∀ {slot mode n slot' mode' n'}, d.at? slot mode = some n → d.at? slot' mode' = some n' →
    IsRecordAt g slot → IsRecordAt g slot' → (slot, mode) ≠ (slot', mode') → n ≠ n'
  /-- No two types of the schema share a name. -/
  names : (schema.types.map NamedType.name).Nodup
  /-- No type has the name of a built-in scalar, and all names are public. -/
  free : ∀ u ∈ schema.types, BuiltIn.ofName? u.name = none ∧ isPublicName u.name = true
  members : ∀ u ∈ schema.types, ∀ name ∈ u.definition.memberNames, isPublicName name = true
  /-- Each of the numbers that were given out is in the name of one type. -/
  issued : ∀ k, 0 < k → k ≤ d.invented → ∃ slot mode, HasNumber g d slot mode k
  numbers : ∀ {slot mode slot' mode' k}, HasNumber g d slot mode k → HasNumber g d slot' mode' k →
    (slot, mode) = (slot', mode')
  /-- Fields of object types can be used as output, their arguments as input. -/
  outputs : ∀ u ∈ schema.types, ∀ fields, u.definition = .object fields → ∀ f ∈ fields,
    schema.Fits .output f.type ∧ ∀ a ∈ f.arguments, schema.Fits .input a.type
  inputs : ∀ u ∈ schema.types, ∀ fields, u.definition = .inputObject fields → ∀ f ∈ fields,
    schema.Fits .input f.type
  /-- Alternatives of unions are object types, and so are the roots. -/
  alternatives : ∀ u ∈ schema.types, ∀ members, u.definition = .union members → ∀ n ∈ members,
    ∃ v ∈ schema.types, v.name = n ∧ v.definition.isObject = true
  roots : ∀ n ∈ schema.roots, ∃ v ∈ schema.types, v.name = n ∧ v.definition.isObject = true

variable {g : Graph} {listed : List TypeRef} {options : CompileOptions} {d : Draft}
  {schema : Schema} {slot : Nat} {mode : Mode} {n : String} {r : TypeRef} {t : SchemaType}

namespace Finished

/-- What a use of a type has become can be used in its mode. -/
theorem fits (h : Finished g listed options d schema) (ht : d.typeOf? options mode r = some t) :
    schema.Fits mode t := by
  induction r generalizing t with
  | primitive p =>
    simp only [Draft.typeOf?] at ht
    split at ht
    · split at ht
      · next hscalar =>
        cases ht
        rcases (Draft.isScalar_iff h.inv.nodup).mp hscalar with hb | ⟨u, hu, hname, hs⟩
        · exact .inl hb
        · exact .inr ⟨u, h.types ▸ hu, hname, TypeDefinition.fits_of_isScalar mode hs⟩
      · cases ht
    · cases ht
  | array element ih =>
    obtain ⟨u, hu, rfl⟩ := Option.map_eq_some_iff.mp ht
    -- the wrappings do not count
    have helement : schema.Fits mode u := ih hu
    exact helement
  | untypedArray | foreign => cases ht
  | date =>
    simp only [Draft.typeOf?] at ht
    split at ht
    · next hdate =>
      cases ht
      exact .inr ⟨dateType, h.types ▸ hdate, rfl, TypeDefinition.fits_of_isScalar mode rfl⟩
    · cases ht
  | node slot =>
    obtain ⟨n, hn, rfl⟩ := Option.map_eq_some_iff.mp ht
    obtain ⟨s, -, -, hsettled⟩ := h.settled hn
    obtain ⟨u, hu, hname, hdef⟩ := hsettled.entry
    exact .inr ⟨u, h.types ▸ hu, hname, hdef ▸ fits_definitionImage hsettled.wellFormed⟩

theorem fits_wrapped (h : Finished g listed options d schema) {m : Member}
    (hknown : ∃ t, d.typeOf? options mode m.type = some t) :
    schema.Fits mode (wrapped m (d.image options m.type mode)) := by
  obtain ⟨t, ht⟩ := hknown
  rw [Schema.Fits, baseName_wrapped, Draft.image_eq ht]
  exact h.fits ht

/-- The table entry of a root. -/
theorem root_isObject (h : Finished g listed options d schema) {wanted : String}
    (hroot : IsRoot g listed wanted slot) (hn : d.at? slot .output = some n) :
    ∃ v ∈ schema.types, v.name = n ∧ v.definition.isObject = true := by
  obtain ⟨-, doc, ms, hs⟩ := hroot
  obtain ⟨s, hs', -, hsettled⟩ := h.settled hn
  obtain rfl := Option.some.inj (hs'.symm.trans hs)
  obtain ⟨u, hu, hname, hdef⟩ := hsettled.entry
  exact ⟨u, h.types ▸ hu, hname, hdef ▸ rfl⟩

/-- The fields of an object type are images of members whose types are known. -/
theorem outputs (h : Finished g listed options d schema) {u : NamedType} (hu : u ∈ schema.types)
    {fields : List Field} (hdef : u.definition = .object fields) {f : Field} (hf : f ∈ fields) :
    schema.Fits .output f.type ∧ ∀ a ∈ f.arguments, schema.Fits .input a.type := by
  rcases h.mem_types_cases (h.types ▸ hu) with hscalar | ⟨slot, mode, s, -, -, hs, hsettled, himage⟩
  · rw [hdef] at hscalar
    cases hscalar
  · obtain ⟨rfl, ms, hms, rfl⟩ := members?_of_object (himage.symm.trans hdef)
    obtain ⟨m, hm, rfl⟩ := List.mem_map.mp hf
    have hm := mem_visible_of_mem_counted hm
    refine ⟨h.fits_wrapped (hsettled.known _ _ (.member hs hms hm)), fun a ha => ?_⟩
    obtain ⟨m', hm', rfl⟩ := List.mem_map.mp ha
    exact h.fits_wrapped (hsettled.known _ _ (.argument hs hms hm (mem_visible_of_mem_counted hm')))

theorem inputs (h : Finished g listed options d schema) {u : NamedType} (hu : u ∈ schema.types)
    {fields : List InputValue} (hdef : u.definition = .inputObject fields) {f : InputValue}
    (hf : f ∈ fields) : schema.Fits .input f.type := by
  rcases h.mem_types_cases (h.types ▸ hu) with hscalar | ⟨slot, mode, s, -, -, hs, hsettled, himage⟩
  · rw [hdef] at hscalar
    cases hscalar
  · obtain ⟨rfl, ms, hms, rfl⟩ := members?_of_inputObject (himage.symm.trans hdef)
    obtain ⟨m, hm, rfl⟩ := List.mem_map.mp hf
    exact h.fits_wrapped (hsettled.known _ _ (.member hs hms (mem_visible_of_mem_counted hm)))

theorem alternatives (h : Finished g listed options d schema) {u : NamedType}
    (hu : u ∈ schema.types) {members : List String} (hdef : u.definition = .union members)
    (hn : n ∈ members) : ∃ v ∈ schema.types, v.name = n ∧ v.definition.isObject = true := by
  rcases h.mem_types_cases (h.types ▸ hu) with hscalar | ⟨slot, mode, s, -, -, hs, hsettled, himage⟩
  · rw [hdef] at hscalar
    cases hscalar
  · obtain ⟨name, doc, alternatives, rfl, htexts, rfl⟩ :=
      alternatives_of_union (himage.symm.trans hdef)
    obtain ⟨r, hr, rfl⟩ := List.mem_map.mp hn
    obtain ⟨n', hn', hobject⟩ := hsettled.alternatives name doc alternatives rfl htexts r hr
    obtain ⟨v, hv, hname, hkind⟩ := (Draft.isObject_iff h.inv.nodup).mp hobject
    rw [Draft.image_eq hn']
    exact ⟨v, h.types ▸ hv, hname, hkind⟩

/-- The roots are object types. -/
theorem roots (h : Finished g listed options d schema) (hn : n ∈ schema.roots) :
    ∃ v ∈ schema.types, v.name = n ∧ v.definition.isObject = true := by
  obtain ⟨query, hquery, hfound⟩ := h.query
  obtain ⟨mutation, hmutation, hfound'⟩ := h.mutation
  rw [Schema.roots, List.mem_append, Option.mem_toList, Option.mem_toList] at hn
  rcases hn with hn | hn
  · cases query with
    | none =>
      rw [hn] at hquery
      cases hquery
    | some slot =>
      obtain ⟨n', hname, hat⟩ := hquery
      obtain rfl := Option.some.inj (hname.symm.trans hn)
      exact h.root_isObject ((hfound slot).mp rfl) hat
  · cases mutation with
    | none =>
      rw [hn] at hmutation
      cases hmutation
    | some slot =>
      obtain ⟨n', hname, hat⟩ := hmutation
      obtain rfl := Option.some.inj (hname.symm.trans hn)
      exact h.root_isObject ((hfound' slot).mp rfl) hat

end Finished

/-- **The schemas that are made are sound.** -/
theorem sound_of_synthesis (g : Graph) (listed : List TypeRef) (options : CompileOptions)
    (d : Draft) (schema : Schema) (hrun : synthesis g listed options = (.ok schema, d)) :
    Sound g listed d schema := by
  have h := finished_of_run hrun
  constructor
  · intro slot mode hr
    obtain ⟨t, ht⟩ := h.known hr
    obtain ⟨n, hn, -⟩ := Option.map_eq_some_iff.mp ht
    exact ⟨n, hn⟩
  · intro slot mode n hn
    obtain ⟨s, -, hnamed, -⟩ := h.settled hn
    obtain ⟨u, hu, hname, -⟩ := hnamed.entry
    exact ⟨u, h.types ▸ hu, hname⟩
  · rintro slot mode n slot' mode' n' hn hn' ⟨s, ms, hs, hms⟩ - hne rfl
    obtain ⟨rfl, rfl⟩ := h.inv.distinct hn hs (isModeless_of_members? hms) hn'
    exact hne rfl
  · rw [h.types]
    exact h.inv.nodup
  · intro u hu
    obtain ⟨hpublic, hfree⟩ := h.inv.free u (h.types ▸ hu)
    exact ⟨hfree, hpublic⟩
  · intro u hu name hname
    rcases h.mem_types_cases (h.types ▸ hu) with hscalar | ⟨slot, mode, s, -, -, -, hsettled, hdef⟩
    · cases hkind : u.definition with
      | scalar kind =>
        rw [hkind] at hname
        cases hname
      | object | inputObject | union | enumeration =>
        rw [hkind] at hscalar
        cases hscalar
    · rw [hdef] at hname
      exact public_of_mem_memberNames hsettled.wellFormed hname
  · exact h.issued
  · intro slot mode slot' mode' k hk hk'
    obtain ⟨rfl, rfl⟩ := h.inv.once hk hk'
    rfl
  · exact fun u hu fields hdef f hf => h.outputs hu hdef hf
  · exact fun u hu fields hdef f hf => h.inputs hu hdef hf
  · exact fun u hu members hdef n hn => h.alternatives hu hdef hn
  · exact fun n hn => h.roots hn

/-- The sample graph, with the draft that its synthesis ends with. -/
theorem sound_of_synthesis_sampleGraph :
    (synthesis sampleGraph [.node 0] .standard).1 = .ok sampleSchema ∧
      Sound sampleGraph [.node 0] (synthesis sampleGraph [.node 0] .standard).2 sampleSchema :=
  have h : (synthesis sampleGraph [.node 0] .standard).1 = .ok sampleSchema := by decide +kernel
  ⟨h, sound_of_synthesis _ _ .standard _ _ (by rw [← h])⟩

end Synthesis

end DeclaredSchema
