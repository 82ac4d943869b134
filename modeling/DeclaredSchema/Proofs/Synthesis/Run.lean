import DeclaredSchema.Proofs.Synthesis.Visit

/-!
# The end of a synthesis

A synthesis finds its roots and visits them. When it succeeds, nothing is underway any more, so the
invariant says of every slot that has become something that it is settled. What the roots reach has
all become something, since a settled slot knows what it mentions.

## Main definitions

* `Finished` — what is known of the draft at the end

## Main results

* `yields_findRoots` — the roots that are found are the listed records of these names
* `finished_of_run` — a successful synthesis has finished
* `Finished.known` — what is reachable has become something
* `Finished.mem_types_cases` — every entry of the table is a scalar, or a settled slot has it
-/

namespace DeclaredSchema

namespace Synthesis

variable {g : Graph} {listed : List TypeRef} {options : CompileOptions} {d d' : Draft}
  {r : TypeRef} {mode : Mode} {slot : Nat} {s : Shape} {n : String} {t : SchemaType}

/-! ### Roots -/

theorem isRoot_cons {name : String} :
    IsRoot g (r :: listed) name slot ↔
      r = .node slot ∧ (∃ doc ms, g.shapeAt? slot = some (.record name doc ms)) ∨
        IsRoot g listed name slot := by
  rw [IsRoot, IsRoot, List.mem_cons, or_and_right, eq_comm]

/-- A slot that a root had before, or that a listed record of its name has. -/
def FoundRoot (g : Graph) (listed : List TypeRef) (name : String) (old new : Option Nat) : Prop :=
  ∀ slot, new = some slot ↔ old = some slot ∨ IsRoot g listed name slot

theorem FoundRoot.skip {name : String} {old new : Option Nat}
    (h : FoundRoot g listed name old new)
    (hr : ∀ slot doc ms, r = .node slot → g.shapeAt? slot ≠ some (.record name doc ms)) :
    FoundRoot g (r :: listed) name old new := by
  intro slot
  rw [h slot, isRoot_cons]
  refine or_congr_right ⟨.inr, ?_⟩
  rintro (⟨heq, doc, ms, hs⟩ | hroot)
  · exact absurd hs (hr slot doc ms heq)
  · exact hroot

theorem FoundRoot.take {name : String} {new : Option Nat} {doc : Option String}
    {ms : List Member} (hs : g.shapeAt? slot = some (.record name doc ms))
    (h : FoundRoot g listed name (some slot) new) :
    FoundRoot g (.node slot :: listed) name none new := by
  intro slot'
  rw [h slot', isRoot_cons]
  constructor
  · rintro (heq | hroot)
    · obtain rfl := Option.some.inj heq
      exact .inr (.inl ⟨rfl, doc, ms, hs⟩)
    · exact .inr (.inr hroot)
  · rintro (hnone | ⟨heq, -⟩ | hroot)
    · cases hnone
    · exact .inl (congrArg some (TypeRef.node.inj heq))
    · exact .inr hroot

/-- The roots that are found are the listed records of these names, and there is one of each name
at most. -/
theorem yields_findRoots {roots roots' : Roots}
    (h : Yields (findRoots g listed roots) d roots' d') :
    d' = d ∧ FoundRoot g listed queryRoot roots.query roots'.query ∧
      FoundRoot g listed mutationRoot roots.mutation roots'.mutation := by
  induction listed generalizing roots with
  | nil =>
    obtain ⟨rfl, rfl⟩ := yields_pure.mp h
    have hnil : ∀ name old, FoundRoot g [] name old old := by
      intro name old slot
      simp [IsRoot]
    exact ⟨rfl, hnil _ _, hnil _ _⟩
  | cons r rest ih =>
    unfold findRoots at h
    split at h
    · next slot name doc ms hs =>
      have hs : g.shapeAt? slot = some (.record name doc ms) := hs
      have hother : ∀ other, name ≠ other → ∀ slot' doc' ms', TypeRef.node slot = .node slot' →
          g.shapeAt? slot' ≠ some (.record other doc' ms') := by
        rintro other hne slot' doc' ms' heq hs'
        rw [← TypeRef.node.inj heq, hs] at hs'
        cases hs'
        exact hne rfl
      simp only [yields_ite, yields_fail, and_false, false_or] at h
      rcases h with ⟨rfl, hnone, h⟩ | ⟨hquery, ⟨rfl, hnone, h⟩ | ⟨hmutation, h⟩⟩
      · have hnone : roots.query = none := by simpa using hnone
        obtain ⟨rfl, hq, hm⟩ := ih h
        rw [hnone]
        exact ⟨rfl, hq.take hs, hm.skip (hother _ (by decide))⟩
      · have hnone : roots.mutation = none := by simpa using hnone
        obtain ⟨rfl, hq, hm⟩ := ih h
        rw [hnone]
        exact ⟨rfl, hq.skip (hother _ (by decide)), hm.take hs⟩
      · obtain ⟨rfl, hq, hm⟩ := ih h
        exact ⟨rfl, hq.skip (hother _ hquery), hm.skip (hother _ hmutation)⟩
    · next r _ _ hno =>
      have hskip : ∀ name slot doc ms, r = .node slot →
          g.shapeAt? slot ≠ some (.record name doc ms) := by
        rintro name slot doc ms rfl hs
        exact hno slot name doc ms rfl hs
      obtain ⟨rfl, hq, hm⟩ := ih h
      exact ⟨rfl, hq.skip (hskip _), hm.skip (hskip _)⟩

/-! ### The run -/

/-- The name of the type of a root, if there is the root. -/
def NamesRoot (d : Draft) (slot : Option Nat) (name : Option String) : Prop :=
  match slot with
  | none => name = none
  | some slot => ∃ n, name = some n ∧ d.at? slot .output = some n

theorem NamesRoot.mono {slot : Option Nat} {name : Option String} (h : NamesRoot d slot name)
    (hext : d.Extends d') : NamesRoot d' slot name := by
  cases slot with
  | none => exact h
  | some slot =>
    obtain ⟨n, hname, hn⟩ := h
    exact ⟨n, hname, hext.at? hn⟩

theorem rootType_makes {U : Nat → Mode → Prop} {root : String} {slot : Option Nat}
    {name : Option String} (hinv : Inv g options U d)
    (hr : ∀ slot', slot = some slot' → Reaches g listed (.node slot') .output)
    (h : Yields (rootType g options root slot) d name d') :
    Inv g options U d' ∧ Grows g listed options d d' ∧ NamesRoot d' slot name := by
  cases slot with
  | none =>
    obtain ⟨rfl, rfl⟩ := yields_pure.mp h
    exact ⟨hinv, .refl _, rfl⟩
  | some slot =>
    simp only [rootType, yields_bind, yields_record, yields_pure] at h
    obtain ⟨_, _, rfl, t, e, ht, rfl, rfl⟩ := h
    have hmade := visit_makes _ (hinv.recorded _) (hr slot rfl) ht
    obtain ⟨n, hn, rfl⟩ := Option.map_eq_some_iff.mp hmade.typeOf
    exact ⟨hmade.inv, (Grows.recorded d _).trans hmade.grows, n, rfl, hn⟩

/-- What is known of the draft from which a schema is made. -/
structure Finished (g : Graph) (listed : List TypeRef) (options : CompileOptions) (d : Draft)
    (schema : Schema) : Prop where
  /-- Nothing is underway. -/
  inv : Inv g options (fun _ _ => False) d
  /-- Everything in the table is what something reachable has become. -/
  origin : ∀ u ∈ d.types, ∃ r mode, Reaches g listed r mode ∧
    d.typeOf? options mode r = some (.named u.name)
  /-- Every number up to the last one has been given. -/
  issued : ∀ k, 0 < k → k ≤ d.invented → ∃ slot mode, HasNumber g d slot mode k
  types : schema.types = d.types
  query : ∃ slot, NamesRoot d slot schema.query ∧
    ∀ slot', slot = some slot' ↔ IsRoot g listed queryRoot slot'
  mutation : ∃ slot, NamesRoot d slot schema.mutation ∧
    ∀ slot', slot = some slot' ↔ IsRoot g listed mutationRoot slot'
  /-- There is a root. -/
  rooted : ∃ slot, IsRoot g listed queryRoot slot ∨ IsRoot g listed mutationRoot slot

theorem finished_of_run {schema : Schema} (h : synthesis g listed options = (.ok schema, d)) :
    Finished g listed options d schema := by
  have hrun : Yields (run g listed options) Draft.empty schema d := h
  simp only [run, yields_bind] at hrun
  obtain ⟨roots, e, hroots, h⟩ := hrun
  obtain ⟨rfl, hq, hm⟩ := yields_findRoots hroots
  have hq : ∀ slot, roots.query = some slot ↔ IsRoot g listed queryRoot slot := by
    intro slot
    rw [hq slot]
    simp
  have hm : ∀ slot, roots.mutation = some slot ↔ IsRoot g listed mutationRoot slot := by
    intro slot
    rw [hm slot]
    simp
  rw [yields_ite] at h
  rcases h with ⟨-, h⟩ | ⟨hsome, h⟩
  · obtain ⟨_, _, hfail, -⟩ := yields_bind.mp h
    exact absurd hfail yields_fail
  · simp only [yields_bind, yields_get, yields_record, yields_pure] at h
    obtain ⟨query, e, hquery, mutation, e', hmutation, _, _, ⟨rfl, rfl⟩, _, _, rfl, rfl, rfl⟩ := h
    obtain ⟨hinv, hgrows, hnames⟩ :=
      rootType_makes Inv.empty (fun slot hs => .query ((hq slot).mp hs)) hquery
    obtain ⟨hinv', hgrows', hnames'⟩ :=
      rootType_makes hinv (fun slot hs => .mutation ((hm slot).mp hs)) hmutation
    have hall := (hgrows.trans hgrows').trans (.recorded e' (.synthesized e'.claims.length))
    refine ⟨hinv'.recorded _, fun u hu => ?_, hall.issued, rfl, ⟨roots.query, ?_, hq⟩,
      ⟨roots.mutation, ?_, hm⟩, ?_⟩
    · rcases hall.origin u hu with hin | horigin
      · exact absurd hin List.not_mem_nil
      · exact horigin
    · exact (hnames.mono hgrows'.toExtends).mono ⟨List.prefix_refl _, List.prefix_refl _, Nat.le_refl _⟩
    · exact hnames'.mono ⟨List.prefix_refl _, List.prefix_refl _, Nat.le_refl _⟩
    · cases hquery' : roots.query with
      | some slot => exact ⟨slot, .inl ((hq slot).mp hquery')⟩
      | none =>
        cases hmutation' : roots.mutation with
        | some slot => exact ⟨slot, .inr ((hm slot).mp hmutation')⟩
        | none => exact absurd (by rw [hquery', hmutation']; rfl) hsome

/-! ### What is reachable -/

namespace Finished

variable {schema : Schema}

theorem query_made (h : Finished g listed options d schema) (hroot : IsRoot g listed queryRoot slot) :
    ∃ n, schema.query = some n ∧ d.at? slot .output = some n := by
  obtain ⟨found, hnames, hfound⟩ := h.query
  rw [(hfound slot).mpr hroot] at hnames
  exact hnames

theorem mutation_made (h : Finished g listed options d schema)
    (hroot : IsRoot g listed mutationRoot slot) :
    ∃ n, schema.mutation = some n ∧ d.at? slot .output = some n := by
  obtain ⟨found, hnames, hfound⟩ := h.mutation
  rw [(hfound slot).mpr hroot] at hnames
  exact hnames

/-- **What is reachable has become something.** -/
theorem known (h : Finished g listed options d schema) (hr : Reaches g listed r mode) :
    ∃ t, d.typeOf? options mode r = some t := by
  induction hr with
  | query hroot =>
    obtain ⟨n, -, hn⟩ := h.query_made hroot
    exact ⟨.named n, Option.map_eq_some_iff.mpr ⟨n, hn, rfl⟩⟩
  | mutation hroot =>
    obtain ⟨n, -, hn⟩ := h.mutation_made hroot
    exact ⟨.named n, Option.map_eq_some_iff.mpr ⟨n, hn, rfl⟩⟩
  | element _ ih =>
    obtain ⟨t, ht⟩ := ih
    obtain ⟨u, hu, -⟩ := Option.map_eq_some_iff.mp ht
    exact ⟨u, hu⟩
  | mention _ hmention ih =>
    obtain ⟨t, ht⟩ := ih
    obtain ⟨n, hn, -⟩ := Option.map_eq_some_iff.mp ht
    obtain ⟨s, hs, -⟩ := h.inv.named hn
    exact (h.inv.settled hn hs not_false).known _ _ hmention

theorem settled (h : Finished g listed options d schema) (hn : d.at? slot mode = some n) :
    ∃ s, g.shapeAt? slot = some s ∧ Named g d mode s n ∧ Settled g options d slot mode s n := by
  obtain ⟨s, hs, hnamed⟩ := h.inv.named hn
  exact ⟨s, hs, hnamed, h.inv.settled hn hs not_false⟩

/-- What is called like a scalar is one. -/
theorem isScalar_of_mem_types (h : Finished g listed options d schema) {u : NamedType}
    (hu : u ∈ d.types) (hscalar : d.isScalar u.name = true) : u.definition.isScalar = true := by
  rcases (Draft.isScalar_iff h.inv.nodup).mp hscalar with hb | ⟨v, hv, hname, hs⟩
  · rw [(h.inv.free u hu).2] at hb
    cases hb
  · rwa [Draft.type_unique h.inv.nodup hv hu hname] at hs

/-- An entry of the table is a scalar, or a settled slot has it. -/
theorem mem_types_cases (h : Finished g listed options d schema) {u : NamedType}
    (hu : u ∈ d.types) : u.definition.isScalar = true ∨
      ∃ slot mode s, Reaches g listed (.node slot) mode ∧ d.at? slot mode = some u.name ∧
        g.shapeAt? slot = some s ∧ Settled g options d slot mode s u.name ∧
        u.definition = definitionImage g (d.image options) mode s := by
  obtain ⟨r, mode, hr, ht⟩ := h.origin u hu
  rcases Draft.isScalar_or_at? h.inv.nodup ht with hscalar | ⟨slot, rfl, hn⟩
  · exact .inl (h.isScalar_of_mem_types hu hscalar)
  · obtain ⟨s, hs, -, hsettled⟩ := h.settled hn
    obtain ⟨v, hv, hname, hdef⟩ := hsettled.entry
    rw [Draft.type_unique h.inv.nodup hv hu hname] at hdef
    exact .inr ⟨slot, mode, s, hr, hn, hs, hsettled, hdef⟩

end Finished

/-! ### A graph with a cycle -/

/-- A root with a resolver and a list, whose elements refer to themselves. -/
def sampleGraph : Graph :=
  [⟨1, .record "Query" (some "The root.") [
      ⟨"me", .node 1, none, false, false, none, some 2⟩,
      ⟨"all", .array (.node 1), none, true, false, none, none⟩]⟩,
    ⟨2, .inlineRecord "sample.ts:1" none [
      ⟨"self", .node 1, some "Itself.", false, true, none, none⟩,
      ⟨"__typename", .primitive ⟨"string", "User", some (.str "User")⟩, none, false, false, none,
        none⟩]⟩,
    ⟨3, .inlineRecord "sample.ts:2" none [
      ⟨"limit", .primitive ⟨"number", "Int", none⟩, none, false, false, none, none⟩]⟩]

/-- What it becomes. -/
def sampleSchema : Schema :=
  ⟨some "Query", none, [
    ⟨"Query", some (.ofString "The root."), .object [
      ⟨"me", .nonNull (.named "User"), [⟨"limit", .nonNull (.named "Int"), none, none⟩], none⟩,
      ⟨"all", .list (.nonNull (.named "User")), [], none⟩]⟩,
    ⟨"User", none, .object [⟨"self", .named "User", [], some "Itself."⟩]⟩]⟩

end Synthesis

end DeclaredSchema
