import DeclaredSchema.Proofs.Synthesis.Exactness
import DeclaredSchema.Proofs.Synthesis.Refusal

/-!
# Where scalars come from

A name that is asked for as a custom scalar is looked up before it is claimed, and any scalar that
has it is taken for the one that is meant. So which scalar a primitive becomes depends on what else
has brought its name into the table: a date, or a union of texts, that was met before. Met after it,
either is refused. There is one exception, since the user can hand in the date scalar itself: a date
is then the scalar that was supplied.

What is known of the table for this is the source of each of its scalars, which is something that
the roots reach. It is an invariant of the steps: only a claim adds to the table, and what is filled
in later is no scalar.

## Main definitions

* `Supplied`, `Native` — custom scalars, and what else can bring a scalar into the table
* `IsClash` — a name that something else brings too
* `Accounted` — every scalar of the table has a source
* `Keeps` — a step keeps what holds of a draft

## Main results

* `visit_keeps` — visits keep the sources
* `custom_scalars_of_synthesis` — what custom scalars become
* `merges_scalar` — a union of texts that a custom scalar is merged with
-/

namespace DeclaredSchema

namespace Synthesis

/-- A custom scalar that the options give for a primitive that is reached. -/
def Supplied (g : Graph) (listed : List TypeRef) (options : CompileOptions) (u : NamedType) :
    Prop :=
  ∃ p mode s, Reaches g listed (.primitive p) mode ∧ p.raw ≠ BuiltIn.id.name ∧
    customOf? options p = some s ∧ u = customType s

/-- The scalar of a union of texts. -/
def textType (name doc : Option String) (alternatives : List TypeRef) : NamedType :=
  ⟨(givenName name).getD (derivedName (alternatives.filterMap TypeRef.text?)), doc.map .ofString,
    .scalar (.texts (alternatives.filterMap TypeRef.text?))⟩

/-- A scalar that something reachable becomes and no primitive: a date, or a union of texts. -/
inductive Native (g : Graph) (listed : List TypeRef) : NamedType → Prop
  | date {mode : Mode} (hr : Reaches g listed .date mode) : Native g listed dateType
  | texts {slot : Nat} {mode : Mode} {name doc : Option String} {alternatives : List TypeRef}
      (hr : Reaches g listed (.node slot) mode)
      (hs : g.shapeAt? slot = some (.union name doc alternatives))
      (htexts : isTexts alternatives = true) : Native g listed (textType name doc alternatives)

/-- The name is also that of a date or of a union of texts whose scalar is not supplied. -/
def IsClash (g : Graph) (listed : List TypeRef) (options : CompileOptions) (name : String) : Prop :=
  ∃ u, Native g listed u ∧ u.name = name ∧ ¬Supplied g listed options u

/-- Every scalar of the table has a source. -/
def Accounted (g : Graph) (listed : List TypeRef) (options : CompileOptions) (d : Draft) : Prop :=
  ∀ u ∈ d.types, u.definition.isScalar = true →
    Supplied g listed options u ∨ Native g listed u

/-- A step that succeeds keeps what holds of the draft. -/
def Keeps (I : Draft → Prop) {α : Type} (m : Synth α) : Prop :=
  ∀ ⦃d a d'⦄, I d → Yields m d a d' → I d'

variable {g : Graph} {listed : List TypeRef} {options : CompileOptions} {I : Draft → Prop}
  {α β : Type} {m n : Synth α} {r : TypeRef} {mode : Mode} {slot : Nat} {label : String}

/-! ### Putting steps together -/

theorem Keeps.bind {f : α → Synth β} (hm : Keeps I m) (hf : ∀ a, Keeps I (f a)) :
    Keeps I (m >>= f) := by
  intro d b d' hd h
  obtain ⟨a, e, ha, hb⟩ := yields_bind.mp h
  exact hf a (hm hd ha) hb

theorem keeps_pure {a : α} : Keeps I (pure a : Synth α) := by
  intro d b d' hd h
  obtain ⟨-, rfl⟩ := yields_pure.mp h
  exact hd

theorem keeps_fail {fault : SynthesisFault} : Keeps I (fail label fault : Synth α) :=
  fun _ _ _ _ h => absurd h yields_fail

theorem keeps_ite {c : Prop} [Decidable c] (hm : Keeps I m) (hn : Keeps I n) :
    Keeps I (if c then m else n) := by
  split
  · exact hm
  · exact hn

theorem keeps_get_bind {f : Draft → Synth α} (hf : ∀ d, Keeps I (f d)) : Keeps I (get >>= f) :=
  fun d _ _ hd h => hf d hd (yields_get_bind.mp h)

theorem keeps_modify {f : Draft → Draft} (hf : ∀ d, I d → I (f d)) : Keeps I (modify f) := by
  intro d a d' hd h
  rw [yields_modify.mp h]
  exact hf d hd

theorem Keeps.mapM {f : α → Synth β} {xs : List α} (h : ∀ x ∈ xs, Keeps I (f x)) :
    Keeps I (xs.mapM f) := by
  induction xs with
  | nil =>
    rw [List.mapM_nil]
    exact keeps_pure
  | cons x rest ih =>
    rw [List.mapM_cons]
    exact (h x (List.mem_cons_self ..)).bind fun _ =>
      (ih fun y hy => h y (List.mem_cons_of_mem x hy)).bind fun _ => keeps_pure

theorem keeps_named {name : String} : Keeps I (named name) := by
  intro d a d' hd h
  rwa [(yields_named.mp h).2]

/-! ### The table -/

/-- Only the table matters. -/
theorem Accounted.congr {d d' : Draft} (h : Accounted g listed options d)
    (hclaims : d'.claims = d.claims) : Accounted g listed options d' := by
  rwa [Accounted, Draft.types, hclaims]

theorem keeps_claim {v : NamedType} (hv : v.definition.isScalar = true →
    Supplied g listed options v ∨ Native g listed v) :
    Keeps (Accounted g listed options) (claim v label) := by
  intro d a d' hd h
  obtain ⟨-, ⟨-, rfl⟩ | ⟨-, -, -, rfl⟩⟩ := yields_claim.mp h
  · intro u hu hscalar
    rw [Draft.types, List.map_append, List.mem_append, List.map_singleton,
      List.mem_singleton] at hu
    rcases hu with hu | rfl
    · exact hd u hu hscalar
    · exact hv hscalar
  · exact hd

theorem keeps_claim_of_not_isScalar {v : NamedType} (hv : v.definition.isScalar = false) :
    Keeps (Accounted g listed options) (claim v label) :=
  keeps_claim fun hscalar => absurd (hv.symm.trans hscalar) Bool.false_ne_true

theorem keeps_note {modes : List Mode} {name : String} :
    Keeps (Accounted g listed options) (note slot modes name) :=
  keeps_modify fun _ hd => hd.congr rfl

theorem keeps_record {event : Event} : Keeps (Accounted g listed options) (record event) :=
  keeps_modify fun _ hd => hd.congr rfl

theorem keeps_invent {start : String} : Keeps (Accounted g listed options) (invent start) := by
  intro d a d' hd h
  rw [(yields_invent.mp h).2]
  exact hd.congr rfl

/-- The last steps of a record or a union. What is filled in is no scalar. -/
theorem keeps_define {name : String} {definition : TypeDefinition} {t : SchemaType}
    (hdefinition : definition.isScalar = false) : Keeps (Accounted g listed options) (do
      modify fun d => d.define name definition
      return t) := by
  refine Keeps.bind (keeps_modify fun d hd => ?_) fun _ => keeps_pure
  intro u hu hscalar
  rw [Draft.types_define] at hu
  obtain ⟨v, hv, rfl⟩ := List.mem_map.mp hu
  split at hscalar
  · rw [hdefinition] at hscalar
    cases hscalar
  · next hne =>
    rw [if_neg hne]
    exact hd v hv hscalar

/-! ### Uses of types -/

theorem primitive_keeps {p : Primitive} (hr : Reaches g listed (.primitive p) mode) :
    Keeps (Accounted g listed options) (primitive options p) := by
  intro d t d' hd h
  unfold primitive at h
  rw [yields_ite] at h
  rcases h with ⟨-, h⟩ | ⟨hid, h⟩
  · exact keeps_pure hd h
  · obtain ⟨found, e, hfound, h⟩ := yields_bind.mp h
    obtain ⟨rfl, calls, rfl⟩ := yields_customScalar? hfound
    have he : Accounted g listed options { d with latestCalls := calls } := hd.congr rfl
    cases hcustom : customOf? options p with
    | some s =>
      have hsource : Supplied g listed options (customType s) :=
        ⟨p, mode, s, hr, hid, hcustom, rfl⟩
      rw [hcustom] at h
      refine keeps_get_bind (fun d => keeps_ite ?_ keeps_pure) he h
      exact (keeps_claim fun _ => .inl hsource).bind fun _ => keeps_pure
    | none =>
      simp only [hcustom] at h
      split at h
      · exact keeps_pure he h
      · exact keeps_fail he h

/-- Visits of what is reached keep the sources. -/
def VisitsKeep (g : Graph) (listed : List TypeRef) (options : CompileOptions)
    (visit : Nat → Mode → Synth SchemaType) : Prop :=
  ∀ {slot mode}, Reaches g listed (.node slot) mode →
    Keeps (Accounted g listed options) (visit slot mode)

section Step

variable {visit : Nat → Mode → Synth SchemaType} {s : Shape} {ms : List Member}
  {name doc : Option String} {alternatives : List TypeRef}

theorem fieldName_keeps {m : Member} {owner : String} : Keeps I (fieldName m owner) :=
  keeps_ite keeps_pure keeps_fail

theorem gather_keeps {key : α → String} {make : Member → Synth α}
    (h : ∀ m ∈ visible ms, Keeps I (make m)) (acc : List α) : Keeps I (gather key make ms acc) := by
  induction ms generalizing acc with
  | nil => exact keeps_pure
  | cons m rest ih =>
    rw [gather]
    rw [visible_cons] at h
    split
    · next hname =>
      rw [if_pos hname] at h
      exact ih h acc
    · next hname =>
      rw [if_neg hname] at h
      exact (h m (List.mem_cons_self ..)).bind fun x =>
        ih (fun m' hm' => h m' (List.mem_cons_of_mem m hm')) _

section Visits

variable (hvisit : VisitsKeep g listed options visit)

include hvisit

theorem typeOf_keeps (hr : Reaches g listed r mode) :
    Keeps (Accounted g listed options) (typeOf options visit mode r) := by
  induction r with
  | primitive p => exact primitive_keeps hr
  | array element ih => exact (ih hr.element).bind fun _ => keeps_pure
  | untypedArray => exact keeps_fail
  | date => exact (keeps_claim fun _ => .inr (.date hr)).bind fun _ => keeps_pure
  | node slot => exact hvisit hr
  | foreign text => exact keeps_fail

theorem inputValues_keeps {owner : String} (hr : ∀ m ∈ visible ms, Reaches g listed m.type .input) :
    Keeps (Accounted g listed options) (inputValues options visit owner ms []) := by
  rw [inputValues_eq]
  refine gather_keeps (fun m hm => ?_) []
  exact fieldName_keeps.bind fun _ => (typeOf_keeps hvisit (hr m hm)).bind fun _ => keeps_pure

theorem outputField_keeps {owner : String} {m : Member} (hr : Reaches g listed m.type .output)
    (ha : ∀ a ∈ visible (argumentMembers g m), Reaches g listed a.type .input) :
    Keeps (Accounted g listed options) (outputField g options visit owner m) := by
  refine (typeOf_keeps hvisit hr).bind fun _ => ?_
  unfold argumentMembers at ha
  cases hbag : m.arguments with
  | none => exact Keeps.bind keeps_pure fun _ => keeps_pure
  | some bag =>
    rw [hbag] at ha
    exact (inputValues_keeps hvisit ha).bind fun _ => keeps_pure

theorem recordType_keeps {typeName : String} (hr : Reaches g listed (.node slot) mode)
    (hs : g.shapeAt? slot = some s) (hms : s.members? = some ms) :
    Keeps (Accounted g listed options)
      (recordType g options visit slot mode typeName doc ms label) := by
  refine keeps_named.bind fun _ => ?_
  cases mode with
  | input =>
    refine (keeps_claim_of_not_isScalar rfl).bind fun _ => keeps_note.bind fun _ => ?_
    refine (inputValues_keeps hvisit fun m hm => hr.mention (.member hs hms hm)).bind fun _ => ?_
    exact keeps_ite (keeps_fail.bind fun _ => keeps_define rfl) (keeps_define rfl)
  | output =>
    refine (keeps_claim_of_not_isScalar rfl).bind fun _ => keeps_note.bind fun _ => ?_
    refine Keeps.bind ?_ fun _ =>
      keeps_ite (keeps_fail.bind fun _ => keeps_define rfl) (keeps_define rfl)
    rw [outputFields_eq]
    exact gather_keeps (fun m hm => fieldName_keeps.bind fun _ => outputField_keeps hvisit
      (hr.mention (.member hs hms hm)) fun a ha => hr.mention (.argument hs hms hm ha)) []

theorem unionMembers_keeps (hr : ∀ r ∈ alternatives, Reaches g listed r .output) :
    Keeps (Accounted g listed options) (unionMembers g options visit label alternatives) := by
  refine Keeps.mapM fun r hmem => (typeOf_keeps hvisit (hr r hmem)).bind fun t => ?_
  cases t with
  | named n => exact keeps_get_bind fun _ => keeps_ite keeps_pure keeps_fail
  | list | nonNull => exact keeps_fail

theorem objectUnion_keeps (hr : Reaches g listed (.node slot) .output)
    (hs : g.shapeAt? slot = some (.union name doc alternatives))
    (htexts : isTexts alternatives = false) : Keeps (Accounted g listed options)
      (objectUnion g options visit slot name doc alternatives label) := by
  have hnamed : ∀ n, Keeps (Accounted g listed options) (do
      named n
      claim ⟨n, doc.map .ofString, .union []⟩ label
      note slot [.output] n
      let members ← unionMembers g options visit label alternatives
      modify fun d => d.define n (.union members)
      return SchemaType.named n) := by
    refine fun n => keeps_named.bind fun _ => (keeps_claim_of_not_isScalar rfl).bind fun _ =>
      keeps_note.bind fun _ => (unionMembers_keeps hvisit fun r hmem => ?_).bind fun _ =>
        keeps_define rfl
    exact hr.mention (.alternative hs htexts hmem)
  unfold objectUnion
  split
  · exact keeps_pure.bind hnamed
  · exact keeps_invent.bind hnamed

end Visits

theorem textScalar_keeps (hr : Reaches g listed (.node slot) mode)
    (hs : g.shapeAt? slot = some (.union name doc alternatives))
    (htexts : isTexts alternatives = true) : Keeps (Accounted g listed options)
      (textScalar slot name doc (alternatives.filterMap TypeRef.text?) label) := by
  have hlast : ∀ made : String, Keeps (Accounted g listed options) (do
      note slot [.input, .output] made
      return SchemaType.named made) := fun _ => keeps_note.bind fun _ => keeps_pure
  refine keeps_get_bind fun d => ?_
  dsimp only
  split
  · exact keeps_pure.bind hlast
  · refine keeps_named.bind fun _ => ?_
    refine (keeps_claim fun _ => .inr (.texts hr hs htexts)).bind fun _ => ?_
    refine keeps_ite ?_ (keeps_pure.bind fun _ => hlast _)
    exact (keeps_modify fun _ hd => hd.congr rfl).bind fun _ => keeps_pure.bind hlast

theorem enumValues_keeps {members : List TypeRef} (acc : List String) :
    Keeps I (enumValues g label members acc) := by
  induction members generalizing acc with
  | nil => exact keeps_pure
  | cons r rest ih =>
    unfold enumValues
    split
    · exact keeps_fail
    · exact keeps_ite keeps_fail (ih _)

theorem makeType_keeps (hvisit : VisitsKeep g listed options visit) {x : Descriptor}
    (hr : Reaches g listed (.node slot) mode) (hx : g[slot]? = some x) :
    Keeps (Accounted g listed options) (makeType g options visit slot mode x) := by
  have hs : g.shapeAt? slot = some x.shape := Option.map_eq_some_iff.mpr ⟨x, hx, rfl⟩
  unfold makeType
  cases hshape : x.shape with
  | record name doc ms =>
    rw [hshape] at hs
    exact recordType_keeps hvisit hr hs rfl
  | inlineRecord location doc ms =>
    rw [hshape] at hs
    refine Keeps.bind ?_ fun _ => recordType_keeps hvisit hr hs rfl
    unfold inlineName
    split
    · exact keeps_pure
    · exact keeps_invent.bind fun _ => keeps_record.bind fun _ => keeps_pure
  | union name doc alternatives =>
    rw [hshape] at hs
    dsimp only
    unfold unionType
    split
    · next htexts => exact textScalar_keeps hr hs htexts
    · next htexts =>
      have htexts : isTexts alternatives = false := by
        rw [isTexts]
        simpa using htexts
      cases mode with
      | input => exact keeps_fail
      | output => exact keeps_ite keeps_fail (objectUnion_keeps hvisit hr hs htexts)
  | enumeration name doc members =>
    exact (enumValues_keeps []).bind fun _ => keeps_named.bind fun _ =>
      (keeps_claim_of_not_isScalar rfl).bind fun _ => keeps_note.bind fun _ => keeps_pure

theorem visitStep_keeps (hvisit : VisitsKeep g listed options visit) :
    VisitsKeep g listed options (visitStep g options visit) := by
  intro slot mode hr
  refine keeps_get_bind fun d => ?_
  split
  · exact keeps_record.bind fun _ => keeps_pure
  · split
    · next x hx =>
      refine Keeps.bind ?_ fun _ => makeType_keeps hvisit hr hx
      exact keeps_modify fun _ hd => hd.congr rfl
    · exact keeps_fail

end Step

/-- **Visits keep the sources**, however deep they may be nested. -/
theorem visit_keeps (depth : Nat) : VisitsKeep g listed options (visit g options depth) := by
  induction depth with
  | zero => exact fun _ _ _ _ _ h => absurd h yields_throw
  | succ depth ih => exact visitStep_keeps ih

/-! ### The run -/

theorem rootType_keeps {root : String} {found : Option Nat}
    (hr : ∀ slot, found = some slot → Reaches g listed (.node slot) .output) :
    Keeps (Accounted g listed options) (rootType g options root found) := by
  cases found with
  | none => exact keeps_pure
  | some slot =>
    exact keeps_record.bind fun _ => (visit_keeps _ (hr slot rfl)).bind fun _ => keeps_pure

/-- **Every scalar of a schema has a source.** -/
theorem accounted_of_synthesis {d : Draft} {schema : Schema}
    (h : synthesis g listed options = (.ok schema, d)) : Accounted g listed options d := by
  have hrun : Yields (run g listed options) Draft.empty schema d := h
  obtain ⟨roots, e, hroots, h⟩ := yields_bind.mp hrun
  obtain ⟨rfl, hquery, hmutation⟩ := yields_findRoots hroots
  have hempty : Accounted g listed options Draft.empty := fun u hu => absurd hu List.not_mem_nil
  have hfound : ∀ slot, (roots.query = some slot → Reaches g listed (.node slot) .output) ∧
      (roots.mutation = some slot → Reaches g listed (.node slot) .output) := by
    intro slot
    constructor
    · intro hslot
      exact .query (((hquery slot).mp hslot).resolve_left nofun)
    · intro hslot
      exact .mutation (((hmutation slot).mp hslot).resolve_left nofun)
  have hmain : Keeps (Accounted g listed options) (do
      let query ← rootType g options queryRoot roots.query
      let mutation ← rootType g options mutationRoot roots.mutation
      let claims := (← get).claims
      record (.synthesized claims.length)
      return (⟨query, mutation, claims.map Claim.type⟩ : Schema)) := by
    refine (rootType_keeps fun slot => (hfound slot).1).bind fun _ => ?_
    refine (rootType_keeps fun slot => (hfound slot).2).bind fun _ => keeps_get_bind fun _ => ?_
    exact keeps_record.bind fun _ => keeps_pure
  exact keeps_ite (keeps_fail.bind fun _ => hmain) hmain hempty h

/-! ### What custom scalars become -/

/-- No custom scalar is the scalar of a union of texts. -/
theorem not_supplied_texts {u : NamedType} {texts : List String}
    (h : u.definition = .scalar (.texts texts)) : ¬Supplied g listed options u := by
  rintro ⟨p, mode, s, -, -, -, rfl⟩
  cases s with
  | own | date => cases h

/-- A union of texts stands for the scalar of its name, whatever the mode is. -/
theorem IsImage.textUnion {schema : Schema} {T : TypeRef → Mode → SchemaType}
    {name doc : Option String} {alternatives : List TypeRef}
    (himage : IsImage g listed options schema T) (hr : Reaches g listed (.node slot) mode)
    (hs : g.shapeAt? slot = some (.union name doc alternatives))
    (htexts : isTexts alternatives = true) :
    T (.node slot) mode = .named (textType name doc alternatives).name ∧
      ∃ u, schema.type? (textType name doc alternatives).name = some u ∧
        u.definition = (textType name doc alternatives).definition := by
  obtain ⟨s, n, u, hs', -, htype, hname, hu, hdefinition, -⟩ := himage.node hr
  obtain rfl := Option.some.inj (hs'.symm.trans hs)
  have hown : ownName? mode (.union name doc alternatives) =
      some (textType name doc alternatives).name := by
    rw [ownName?, if_pos htexts]
    rfl
  have hn : n = (textType name doc alternatives).name := by
    rcases hname with hown' | ⟨k, hk⟩
    · exact Option.some.inj (hown'.symm.trans hown)
    · cases hk.1.symm.trans hown
  refine ⟨hn ▸ htype, u, hn ▸ hu, ?_⟩
  rw [hdefinition, definitionImage, if_pos htexts]
  rfl

/-- A date or a union of texts that is met behind a custom scalar of its name is refused. -/
theorem claim_refused {u : NamedType} {c : Claim} {d : Draft} (hpublic : isPublicName u.name = true)
    (hfree : BuiltIn.ofName? u.name = none) (hc : d.claim? u.name = some c) (hne : c.type ≠ u) :
    Fails (claim u label) d (.descriptor ⟨.nameTaken u.name label c.owner, label⟩) := by
  have howner : d.owner? u.name = some c.owner := by simp [Draft.owner?, hfree, hc]
  have hno : ¬(u = dateType ∧ (d.claim? u.name).map Claim.type = some dateType) := by
    rintro ⟨rfl, hdate⟩
    rw [hc] at hdate
    exact hne (Option.some.inj hdate)
  simp only [claim, hpublic, Bool.not_true, Bool.false_eq_true, if_false, fails_get_bind, howner]
  rw [if_neg hno]
  exact fails_fail.mpr rfl

/-- What a primitive with a custom scalar has become: the scalar of the name, and one that is supplied
exactly if no other scalar has the name too. -/
structure BecomesScalar (g : Graph) (listed : List TypeRef) (options : CompileOptions)
    (schema : Schema) (t : SchemaType) (name : String) : Prop where
  type : t = .named name
  entry : ∃ u, schema.type? name = some u ∧ u.definition.isScalar = true ∧
    (Supplied g listed options u ↔ ¬IsClash g listed options name)

/-- **What custom scalars become.** Wherever a custom scalar is found for a primitive, the primitive
becomes the scalar of that name in the table. It is one that is supplied exactly if no date and no
union of texts that the roots reach brings another scalar of this name. If the supplied one is met
first, the other is refused. -/
theorem custom_scalars_of_synthesis {schema : Schema}
    (h : (synthesis g listed options).1 = .ok schema) :
    (∃ T, IsImage g listed options schema T ∧ ∀ {p mode s}, Reaches g listed (.primitive p) mode →
      p.raw ≠ BuiltIn.id.name → customOf? options p = some s → BuiltIn.ofName? s.name = none →
      BecomesScalar g listed options schema (T (.primitive p) mode) s.name) ∧
    ∀ {u c d label}, Native g listed u → ¬Supplied g listed options u →
      Supplied g listed options c.type → d.claim? u.name = some c → isPublicName u.name = true →
      BuiltIn.ofName? u.name = none →
      Fails (claim u label) d (.descriptor ⟨.nameTaken u.name label c.owner, label⟩) := by
  have hrun : synthesis g listed options = (.ok schema, (synthesis g listed options).2) := by
    rw [← h]
  have hfinished := finished_of_run hrun
  have himage := hfinished.isImage
  refine ⟨⟨_, himage, fun {p mode s} hr hid hs hfree => ?_⟩,
    fun _ hother hsupplied hc hpublic hfree => claim_refused hpublic hfree hc ?_⟩
  · obtain ⟨n, hn, htype, hscalar⟩ := himage.primitive hr
    obtain rfl : s.name = n := by simpa [scalarNameOf?, hid, hs] using hn
    obtain ⟨u, hu, hkind⟩ := hscalar.resolve_left (by simp [hfree])
    obtain ⟨hmem, hname⟩ := hfinished.type?_eq_some_iff.mp hu
    refine ⟨htype, u, hu, hkind, ?_⟩
    constructor
    · -- a scalar that clashes has the entry of the name, and is not supplied
      rintro hsupplied ⟨v, hv, hvname, hother⟩
      cases hv with
      | date hdate =>
        obtain rfl := Option.some.inj ((hvname ▸ hu).symm.trans (himage.date hdate).2)
        exact hother hsupplied
      | texts hreached hs htexts =>
        obtain ⟨-, w, hw, hdefinition⟩ := himage.textUnion hreached hs htexts
        obtain rfl := Option.some.inj ((hvname ▸ hu).symm.trans hw)
        exact not_supplied_texts hdefinition hsupplied
    · intro hclash
      by_contra hother
      have hnative := (accounted_of_synthesis hrun u hmem hkind).resolve_left hother
      exact hclash ⟨u, hnative, hname, hother⟩
  · rintro rfl
    exact hother hsupplied

/-- What the query root mentions is reached. -/
theorem reaches_of_mem {doc : Option String} {ms : List Member} {m : Member}
    (hlisted : .node slot ∈ listed) (hs : g.shapeAt? slot = some (.record queryRoot doc ms))
    (hm : m ∈ ms) (hname : m.name ≠ typenameMember) : Reaches g listed m.type .output :=
  .mention (.query ⟨hlisted, doc, ms, hs⟩) (.member hs rfl (mem_visible.mpr ⟨hm, hname⟩))

/-- A member without anything but a name and a type. -/
def plainMember (name : String) (type : TypeRef) : Member :=
  ⟨name, type, none, false, false, none, none⟩

/-- A price and a date. -/
def priceGraph : Graph :=
  [⟨1, .record "Query" none [plainMember "price" (.primitive ⟨"Money", "Money", none⟩),
    plainMember "day" .date]⟩]

def priceOptions : CompileOptions := ⟨[.own "Money" none none], none, false⟩

def priceSchema : Schema :=
  ⟨some "Query", none, [
    ⟨"Query", none, .object [⟨"price", .nonNull (.named "Money"), [], none⟩,
      ⟨"day", .nonNull (.named "Date"), [], none⟩]⟩,
    ⟨"Money", none, .scalar (.custom none)⟩, dateType]⟩

theorem custom_scalars_of_synthesis_priceGraph :
    (synthesis priceGraph [.node 0] priceOptions).1 = .ok priceSchema ∧
      ∃ T, IsImage priceGraph [.node 0] priceOptions priceSchema T ∧
        BecomesScalar priceGraph [.node 0] priceOptions priceSchema
          (T (.primitive ⟨"Money", "Money", none⟩) .output) "Money" := by
  have h : (synthesis priceGraph [.node 0] priceOptions).1 = .ok priceSchema := by decide +kernel
  obtain ⟨⟨T, himage, hcustom⟩, -⟩ := custom_scalars_of_synthesis h
  have hr : Reaches priceGraph [.node 0] (.primitive ⟨"Money", "Money", none⟩) .output :=
    reaches_of_mem (m := plainMember "price" _) (.head _) rfl (.head _) (by decide)
  exact ⟨h, T, himage, hcustom (s := .own "Money" none none) hr (by decide) rfl rfl⟩

/-- The date scalar is handed in for the price, and the day has the same type. -/
example : synthesize priceGraph ⟨[], some fun _ => .ok (some .date), false⟩ =
    .ok ⟨some "Query", none, [
      ⟨"Query", none, .object [⟨"price", .nonNull (.named "Date"), [], none⟩,
        ⟨"day", .nonNull (.named "Date"), [], none⟩]⟩, dateType]⟩ := by
  decide +kernel

/-- A union of texts, and a primitive that is called like its scalar. -/
def mergedGraph : Graph :=
  [⟨1, .record "Query" none [plainMember "x" (.node 1),
      plainMember "y" (.primitive ⟨"a__b", "a__b", none⟩)]⟩,
    ⟨2, .union none none [.primitive ⟨"string", "'a'", some (.str "a")⟩,
      .primitive ⟨"string", "'b'", some (.str "b")⟩]⟩]

def mergedOptions : CompileOptions := ⟨[.own "a__b" none none], none, false⟩

def mergedSchema : Schema :=
  ⟨some "Query", none, [
    ⟨"Query", none, .object [⟨"x", .nonNull (.named "a__b"), [], none⟩,
      ⟨"y", .nonNull (.named "a__b"), [], none⟩]⟩,
    ⟨"a__b", none, .scalar (.texts ["a", "b"])⟩]⟩

/-- **A custom scalar can be merged away**: the union is met first, and the primitive becomes its
scalar, though the options have another one of this name. -/
theorem merges_scalar :
    synthesize mergedGraph mergedOptions = .ok mergedSchema ∧
      Reaches mergedGraph [.node 0, .node 1] (.primitive ⟨"a__b", "a__b", none⟩) .output ∧
      customOf? mergedOptions ⟨"a__b", "a__b", none⟩ = some (.own "a__b" none none) ∧
      BuiltIn.ofName? "a__b" = none ∧
      mergedSchema.type? "a__b" = some ⟨"a__b", none, .scalar (.texts ["a", "b"])⟩ ∧
      ∀ listed, ¬Supplied mergedGraph listed mergedOptions
        ⟨"a__b", none, .scalar (.texts ["a", "b"])⟩ := by
  refine ⟨by decide +kernel, reaches_of_mem (m := plainMember "y" _) (.head _) rfl
    (.tail _ (.head _)) (by decide), rfl, rfl, rfl, fun _ => not_supplied_texts rfl⟩

end Synthesis

end DeclaredSchema
