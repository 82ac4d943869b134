import DeclaredSchema.Proofs.Synthesis.Run

/-!
# Schemas are images of graphs

A schema that is made from a graph of descriptors is exactly the image of what its roots reach: there
is a map from the types of the graph, each in a mode, to types of the schema that maps every
reachable type to what it stands for, and nothing is in the schema but what it maps them to. The map
is what the slots have become when the last visit ends. Cycles and the order of the visits leave no
trace in it.

## Main definitions

* `IsImage` — the schema is the image of what is reachable, by a map

## Main results

* `exists_isImage` — a schema that is made is an image
-/

namespace DeclaredSchema

theorem findType?_eq_some_iff {types : List NamedType} (hnodup : (types.map NamedType.name).Nodup)
    {name : String} {u : NamedType} :
    findType? types name = some u ↔ u ∈ types ∧ u.name = name := by
  constructor
  · intro h
    exact ⟨List.mem_of_find?_eq_some h, by simpa using List.find?_some h⟩
  · rintro ⟨hmem, rfl⟩
    obtain ⟨v, hv⟩ : ∃ v, findType? types u.name = some v := by
      rw [← Option.isSome_iff_exists, findType?, List.find?_isSome]
      exact ⟨u, hmem, by simp⟩
    have hname : v.name = u.name := by simpa using List.find?_some hv
    rw [hv, List.inj_on_of_nodup_map hnodup (List.mem_of_find?_eq_some hv) hmem hname]

namespace Synthesis

/-- The schema is the image of what the roots reach, by the map `T` of types in modes. -/
structure IsImage (g : Graph) (listed : List TypeRef) (options : CompileOptions) (schema : Schema)
    (T : TypeRef → Mode → SchemaType) : Prop where
  /-- The query root is what the listed record of its name stands for as output. -/
  query : ∀ n, schema.query = some n ↔
    ∃ slot, IsRoot g listed queryRoot slot ∧ T (.node slot) .output = .named n
  /-- And so is the mutation root. -/
  mutation : ∀ n, schema.mutation = some n ↔
    ∃ slot, IsRoot g listed mutationRoot slot ∧ T (.node slot) .output = .named n
  rooted : ∃ slot, IsRoot g listed queryRoot slot ∨ IsRoot g listed mutationRoot slot
  /-- A primitive stands for its scalar, which is built in or in the table. -/
  primitive : ∀ {p mode}, Reaches g listed (.primitive p) mode →
    ∃ n, scalarNameOf? options p = some n ∧ T (.primitive p) mode = .named n ∧
      ((BuiltIn.ofName? n).isSome = true ∨
        ∃ u, schema.type? n = some u ∧ u.definition.isScalar = true)
  /-- The elements of an array are never absent. -/
  array : ∀ {r mode}, Reaches g listed (.array r) mode →
    T (.array r) mode = .list (.nonNull (T r mode))
  date : ∀ {mode}, Reaches g listed .date mode →
    T .date mode = .named Date.name ∧ schema.type? Date.name = some dateType
  /-- Nothing is reachable that is no type. -/
  proper : ∀ {r mode}, Reaches g listed r mode → r ≠ .untypedArray ∧ ∀ text, r ≠ .foreign text
  /-- A slot stands for the type of its name, whose definition is the image of its shape. -/
  node : ∀ {slot mode}, Reaches g listed (.node slot) mode →
    ∃ s n u, g.shapeAt? slot = some s ∧ WellFormed g mode s ∧ T (.node slot) mode = .named n ∧
      IsNameOf mode s n ∧ schema.type? n = some u ∧ u.definition = definitionImage g T mode s ∧
      ∃ slot' s', g.shapeAt? slot' = some s' ∧ Shares s s' ∧ u.description = s'.doc.map .ofString
  /-- The alternatives of a union stand for object types, unless they are texts. -/
  alternative : ∀ {slot mode name doc alternatives}, Reaches g listed (.node slot) mode →
    g.shapeAt? slot = some (.union name doc alternatives) → isTexts alternatives = false →
    ∀ r ∈ alternatives, ∃ n u, T r .output = .named n ∧ schema.type? n = some u ∧
      u.definition.isObject = true
  /-- Every entry of the table is what something reachable stands for. -/
  onto : ∀ u ∈ schema.types, ∃ r mode, Reaches g listed r mode ∧ T r mode = .named u.name

variable {g : Graph} {listed : List TypeRef} {options : CompileOptions} {d : Draft}
  {schema : Schema} {slot : Nat} {mode : Mode} {n : String}

/-- A root is the image of the record of its name. -/
theorem NamesRoot.eq_some_iff {root : Option String} {wanted : String} {found : Option Nat}
    (hnames : NamesRoot d found root)
    (hfound : ∀ slot, found = some slot ↔ IsRoot g listed wanted slot) (n : String) :
    root = some n ↔
      ∃ slot, IsRoot g listed wanted slot ∧ d.image options (.node slot) .output = .named n := by
  constructor
  · rintro rfl
    cases found with
    | none => cases hnames
    | some slot =>
      obtain ⟨n', hroot, hn⟩ := hnames
      cases hroot
      exact ⟨slot, (hfound slot).mp rfl, Draft.image_node hn⟩
  · rintro ⟨slot, hroot, himage⟩
    rw [(hfound slot).mpr hroot] at hnames
    obtain ⟨n', hname, hn⟩ := hnames
    rw [Draft.image_node hn] at himage
    rw [hname, SchemaType.named.inj himage]

namespace Finished

theorem type?_eq_some_iff (h : Finished g listed options d schema) {u : NamedType} :
    schema.type? n = some u ↔ u ∈ d.types ∧ u.name = n := by
  rw [Schema.type?, h.types]
  exact findType?_eq_some_iff h.inv.nodup

/-- When a synthesis has finished, what the slots have become is the map. -/
theorem isImage (h : Finished g listed options d schema) :
    IsImage g listed options schema (d.image options) where
  query n := by
    obtain ⟨found, hnames, hfound⟩ := h.query
    exact hnames.eq_some_iff hfound n
  mutation n := by
    obtain ⟨found, hnames, hfound⟩ := h.mutation
    exact hnames.eq_some_iff hfound n
  rooted := h.rooted
  primitive {p mode} hr := by
    obtain ⟨t, ht⟩ := h.known hr
    have himage := Draft.image_eq ht
    simp only [Draft.typeOf?] at ht
    split at ht
    · next n hn =>
      split at ht
      · next hscalar =>
        cases ht
        refine ⟨n, hn, himage, ?_⟩
        rcases (Draft.isScalar_iff h.inv.nodup).mp hscalar with hb | ⟨u, hu, hname, hs⟩
        · exact .inl hb
        · exact .inr ⟨u, h.type?_eq_some_iff.mpr ⟨hu, hname⟩, hs⟩
      · cases ht
    · cases ht
  array hr := by
    obtain ⟨t, ht⟩ := h.known hr.element
    rw [Draft.image_eq ht]
    exact Draft.image_eq (Option.map_eq_some_iff.mpr ⟨t, ht, rfl⟩)
  date hr := by
    obtain ⟨t, ht⟩ := h.known hr
    have himage := Draft.image_eq ht
    simp only [Draft.typeOf?] at ht
    split at ht
    · next hdate =>
      cases ht
      exact ⟨himage, h.type?_eq_some_iff.mpr ⟨hdate, rfl⟩⟩
    · cases ht
  proper {r mode} hr := by
    obtain ⟨t, ht⟩ := h.known hr
    constructor
    · rintro rfl
      cases ht
    · rintro text rfl
      cases ht
  node {slot mode} hr := by
    obtain ⟨t, ht⟩ := h.known hr
    obtain ⟨n, hn, rfl⟩ := Option.map_eq_some_iff.mp ht
    obtain ⟨s, hs, hnamed, hsettled⟩ := h.settled hn
    obtain ⟨u, hu, hname, hdef⟩ := hsettled.entry
    obtain ⟨v, hv, hvname, -, hdescribed⟩ := hnamed.entry
    obtain rfl := Draft.type_unique h.inv.nodup hv hu (hvname.trans hname.symm)
    exact ⟨s, n, v, hs, hsettled.wellFormed, Draft.image_node hn, hnamed.name,
      h.type?_eq_some_iff.mpr ⟨hu, hname⟩, hdef, hdescribed⟩
  alternative {slot mode name doc alternatives} hr hs htexts r hmem := by
    obtain ⟨t, ht⟩ := h.known hr
    obtain ⟨n, hn, rfl⟩ := Option.map_eq_some_iff.mp ht
    obtain ⟨s, hs', -, hsettled⟩ := h.settled hn
    obtain rfl := Option.some.inj (hs'.symm.trans hs)
    obtain ⟨n', hn', hobject⟩ := hsettled.alternatives _ _ _ rfl htexts r hmem
    obtain ⟨u, hu, hname, hkind⟩ := (Draft.isObject_iff h.inv.nodup).mp hobject
    exact ⟨n', u, Draft.image_eq hn', h.type?_eq_some_iff.mpr ⟨hu, hname⟩, hkind⟩
  onto u hu := by
    rw [h.types] at hu
    obtain ⟨r, mode, hr, ht⟩ := h.origin u hu
    exact ⟨r, mode, hr, Draft.image_eq ht⟩

end Finished

/-- **A schema that is made is the image of its graph**: some map takes everything that the roots
reach, in the modes in which they reach it, to what it stands for in the schema, and the schema
holds nothing else. -/
theorem exists_isImage (g : Graph) (listed : List TypeRef) (options : CompileOptions)
    (schema : Schema) (h : (synthesis g listed options).1 = .ok schema) :
    ∃ T, IsImage g listed options schema T := by
  have hrun : synthesis g listed options = (.ok schema, (synthesis g listed options).2) := by
    rw [← h]
  exact ⟨_, (finished_of_run hrun).isImage⟩

/-- The schema of the sample graph, and its image. -/
theorem exists_isImage_sampleGraph :
    (synthesis sampleGraph [.node 0] .standard).1 = .ok sampleSchema ∧
      ∃ T, IsImage sampleGraph [.node 0] .standard sampleSchema T :=
  have h : (synthesis sampleGraph [.node 0] .standard).1 = .ok sampleSchema := by decide +kernel
  ⟨h, exists_isImage _ _ _ _ h⟩

end Synthesis

end DeclaredSchema
