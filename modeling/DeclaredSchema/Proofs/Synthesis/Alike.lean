import DeclaredSchema.Proofs.Descriptor.Alike
import DeclaredSchema.Proofs.Simulation
import DeclaredSchema.Proofs.Synthesis.Run
import Mathlib.Data.List.ProdSigma

/-!
# Schemas of graphs that are alike

Two graphs that differ in their slots become the same schema. The one synthesis takes the same steps
as the other one: it claims the same types in the same order, notes the same names for corresponding
slots, shares the same texts and counts the invented names alike. Labels differ, but they are only
shown in messages.

The larger graph allows more nested visits. This makes no difference: a visit that goes on to others
has noted something new, so there are never more of them underway than there is to be noted.

## Main definitions

* `Draft.Alike` — drafts that agree up to slots, labels and the trace
* `HasNoted` — how much has been noted at least
* `VisitsAlike` — visits that follow each other

## Main results

* `follows_claim`, `follows_note` — single steps
* `follows_typeOf`, `follows_inputValues`, `follows_outputFields` — uses of types and members
* `follows_makeType`, `follows_visit` — visits
* `synthesize_of_alike` — the schema
-/

namespace DeclaredSchema

/-- Two drafts agree in all but labels and the trace, and have noted corresponding slots. -/
structure Draft.Alike (R : Nat → Nat → Prop) (d d' : Draft) : Prop where
  types : d.types = d'.types
  made : List.Forall₂ (fun e e' => R e.1.1 e'.1.1 ∧ e.1.2 = e'.1.2 ∧ e.2 = e'.2) d.made d'.made
  texts : d.texts = d'.texts
  invented : d.invented = d'.invented

namespace Draft

variable {R : Nat → Nat → Prop} {d d' : Draft} {n : String} {slot slot' : Nat} {mode : Mode}

theorem map_type_claim? (d : Draft) (n : String) :
    (d.claim? n).map Claim.type = findType? d.types n := by
  rw [claim?, types, findType?, List.find?_map]
  rfl

theorem any_claim? (d : Draft) (n : String) (f : TypeDefinition → Bool) :
    (d.claim? n).any (fun c => f c.type.definition) =
      (findType? d.types n).any fun t => f t.definition := by
  rw [← map_type_claim?, Option.any_map]

namespace Alike

theorem isScalar_eq (h : d.Alike R d') (n : String) : d.isScalar n = d'.isScalar n := by
  rw [isScalar, isScalar, any_claim? d n TypeDefinition.isScalar,
    any_claim? d' n TypeDefinition.isScalar, h.types]

theorem isObject_eq (h : d.Alike R d') (n : String) : d.isObject n = d'.isObject n := by
  rw [isObject, isObject, any_claim? d n TypeDefinition.isObject,
    any_claim? d' n TypeDefinition.isObject, h.types]

theorem owner?_eq_none_iff (h : d.Alike R d') (n : String) :
    d.owner? n = none ↔ d'.owner? n = none := by
  have hnone : ∀ d : Draft, (d.claim? n).map Claim.owner = none ↔ findType? d.types n = none :=
    fun d => by rw [← map_type_claim?, Option.map_eq_none_iff, Option.map_eq_none_iff]
  rw [owner?, owner?]
  split
  · exact Iff.rfl
  · rw [hnone, hnone, h.types]

/-- What corresponding slots have become. -/
theorem at?_eq {g g' : Graph} (h : d.Alike R d') (hg : Graph.Alike R g g') (hslot : R slot slot') :
    d.at? slot mode = d'.at? slot' mode := by
  obtain ⟨claims, made, texts, invented, events, calls⟩ := d
  obtain ⟨claims', made', texts', invented', events', calls'⟩ := d'
  obtain ⟨-, hmade, -, -⟩ := h
  rw [at?, at?]
  simp only at hmade ⊢
  induction hmade with
  | nil => rfl
  | @cons e e' _ _ he _ ih =>
    obtain ⟨⟨s, m⟩, name⟩ := e
    obtain ⟨⟨s', m'⟩, name'⟩ := e'
    obtain ⟨hs, hm, hname⟩ := he
    simp only at hs hm hname
    subst hm hname
    have hiff : slot = s ↔ slot' = s' := by
      constructor
      · rintro rfl
        exact hg.right_unique hslot hs
      · rintro rfl
        exact hg.left_unique hslot hs
    simp only [List.lookup_cons, beq_eq_decide, Prod.mk.injEq, hiff, ih]

theorem define (h : d.Alike R d') (name : String) (definition : TypeDefinition) :
    (d.define name definition).Alike R (d'.define name definition) where
  types := by rw [types_define, types_define, h.types]
  made := h.made
  texts := h.texts
  invented := h.invented

end Alike

end Draft

namespace Synthesis

/-! ### How much has been noted -/

/-- What slots have become. -/
abbrev Made := List ((Nat × Mode) × String)

/-- At least `count` types of a graph have been noted. -/
def HasNoted (g : Graph) (count : Nat) (made : Made) : Prop :=
  ∃ seen : List (Nat × Mode), seen.Nodup ∧ count ≤ seen.length ∧
    ∀ p ∈ seen, p.1 < g.length ∧ made.lookup p ≠ none

variable {R : Nat → Nat → Prop} {g g' : Graph} {options : CompileOptions} {d d' : Draft}
  {slot slot' count depth : Nat} {mode : Mode} {n label label' : String} {made : Made}
  {P Q : Made → Prop} {visit visit' : Nat → Mode → Synth SchemaType}

theorem mem_both (mode : Mode) : mode ∈ [Mode.input, .output] := by
  cases mode <;> decide

theorem HasNoted.le (h : HasNoted g count made) : count ≤ 2 * g.length := by
  obtain ⟨seen, hnodup, hle, hall⟩ := h
  have hsub : seen ⊆ List.range g.length ×ˢ [Mode.input, .output] := by
    rintro ⟨slot, mode⟩ hp
    exact List.mem_product.mpr ⟨List.mem_range.mpr (hall _ hp).1, mem_both mode⟩
  have hlength := hnodup.length_le_of_subset hsub
  rw [List.length_product, List.length_range] at hlength
  exact Nat.le_trans hle (Nat.mul_comm _ 2 ▸ hlength)

theorem HasNoted.pred (h : HasNoted g (count + 1) made) : HasNoted g count made := by
  obtain ⟨seen, hnodup, hle, hall⟩ := h
  exact ⟨seen, hnodup, Nat.le_of_succ_le hle, hall⟩

/-- What is noted for the first time adds to what has been noted. -/
theorem HasNoted.note {modes : List Mode} (h : HasNoted g count made) (hslot : slot < g.length)
    (hnone : made.lookup (slot, mode) = none) (hmode : mode ∈ modes) :
    HasNoted g (count + 1) (made ++ modes.map fun mode => ((slot, mode), n)) := by
  have hnew : (modes.map fun mode => ((slot, mode), n)).lookup (slot, mode) ≠ none := by
    rw [Ne, List.lookup_eq_none_iff]
    intro hall
    have hne := hall _ (List.mem_map_of_mem hmode)
    simp at hne
  obtain ⟨seen, hnodup, hle, hall⟩ := h
  have hfresh : (slot, mode) ∉ seen := fun hmem => (hall _ hmem).2 hnone
  refine ⟨(slot, mode) :: seen, List.nodup_cons.mpr ⟨hfresh, hnodup⟩, Nat.succ_le_succ hle, ?_⟩
  intro p hp
  rw [List.lookup_append]
  rcases List.mem_cons.mp hp with rfl | hp
  · rw [hnone, Option.none_or]
    exact ⟨hslot, hnew⟩
  · obtain ⟨name, hname⟩ := Option.ne_none_iff_exists'.mp (hall p hp).2
    rw [hname, Option.some_or]
    exact ⟨(hall p hp).1, Option.some_ne_none _⟩

/-- Noting a slot in some modes takes what is known of the noted slots from `P` to `Q`. -/
def Notes (P Q : Made → Prop) (slot : Nat) (modes : List Mode) : Prop :=
  ∀ made n, P made → Q (made ++ modes.map fun mode => ((slot, mode), n))

/-! ### Single steps -/

/-- The drafts are alike, and `P` is known of what the second one has noted. -/
def AlikeWith (R : Nat → Nat → Prop) (P : Made → Prop) (d d' : Draft) : Prop :=
  d.Alike R d' ∧ P d'.made

theorem follows_fail {α : Type} {S T : Draft → Draft → Prop} {fault : SynthesisFault}
    {m' : Synth α} : Follows S T (fail label fault) m' :=
  follows_throw _

theorem follows_fail_bind {α β : Type} {S T : Draft → Draft → Prop} {fault : SynthesisFault}
    {f : α → Synth β} {m' : Synth β} : Follows S T (fail label fault >>= f) m' :=
  follows_throw_bind _

theorem follows_record {event event' : Event} :
    Follows (AlikeWith R P) (AlikeWith R P) (record event) (record event') :=
  follows_modify fun ⟨h, hP⟩ => ⟨⟨h.types, h.made, h.texts, h.invented⟩, hP⟩

theorem follows_named : Follows (AlikeWith R P) (AlikeWith R P) (named n) (named n) := by
  intro d d' u e h hn
  obtain ⟨hname, rfl⟩ := yields_named.mp hn
  exact ⟨d', yields_named.mpr ⟨hname, rfl⟩, h⟩

theorem follows_claim {v : NamedType} :
    Follows (AlikeWith R P) (AlikeWith R P) (claim v label) (claim v label') := by
  rintro d d' u e ⟨h, hP⟩ hclaim
  obtain ⟨hpublic, ⟨hfree, rfl⟩ | ⟨htaken, hdate, hfound, rfl⟩⟩ := yields_claim.mp hclaim
  · have hfree' : d'.owner? v.name = none := (h.owner?_eq_none_iff v.name).mp hfree
    refine ⟨_, yields_claim.mpr ⟨hpublic, .inl ⟨hfree', rfl⟩⟩, ⟨?_, h.made, h.texts, h.invented⟩, hP⟩
    have htypes : d.claims.map Claim.type = d'.claims.map Claim.type := h.types
    rw [Draft.types, Draft.types, List.map_append, List.map_append, htypes]
    rfl
  · have htaken' : d'.owner? v.name ≠ none := mt (h.owner?_eq_none_iff v.name).mpr htaken
    rw [Draft.map_type_claim?, h.types, ← Draft.map_type_claim?] at hfound
    exact ⟨d', yields_claim.mpr ⟨hpublic, .inr ⟨htaken', hdate, hfound, rfl⟩⟩, h, hP⟩

theorem follows_invent {start : String} :
    Follows (AlikeWith R P) (AlikeWith R P) (invent start) (invent start) := by
  rintro d d' n e ⟨h, hP⟩ hn
  obtain ⟨rfl, rfl⟩ := yields_invent.mp hn
  refine ⟨_, yields_invent.mpr ⟨?_, rfl⟩, ⟨h.types, h.made, h.texts, ?_⟩, hP⟩
  · rw [h.invented]
  · rw [h.invented]

theorem follows_start : Follows (AlikeWith R P) (AlikeWith R P) (start slot mode)
    (start slot' mode) :=
  follows_modify fun ⟨h, hP⟩ => ⟨⟨h.types, h.made, h.texts, h.invented⟩, hP⟩

theorem follows_note {modes : List Mode} (hslot : R slot slot') (hP : Notes P Q slot' modes) :
    Follows (AlikeWith R P) (AlikeWith R Q) (note slot modes n) (note slot' modes n) := by
  refine follows_modify fun {d d'} ⟨h, hmade⟩ => ⟨⟨h.types, ?_, h.texts, h.invented⟩, hP _ _ hmade⟩
  refine List.rel_append h.made ?_
  rw [List.forall₂_map_left_iff, List.forall₂_map_right_iff]
  exact List.forall₂_same.mpr fun _ _ => ⟨hslot, rfl, rfl⟩

theorem follows_define {definition : TypeDefinition} :
    Follows (AlikeWith R P) (AlikeWith R P)
      (modify fun d : Draft => d.define n definition : Synth PUnit)
      (modify fun d : Draft => d.define n definition) :=
  follows_modify fun ⟨h, hP⟩ => ⟨h.define n definition, hP⟩

/-! ### Scalars -/

theorem follows_call {p : Primitive} : Follows (AlikeWith R P) (AlikeWith R P)
    (modify fun d : Draft => { d with latestCalls := p :: d.latestCalls } : Synth PUnit)
    (modify fun d : Draft => { d with latestCalls := p :: d.latestCalls }) :=
  follows_modify fun ⟨h, hP⟩ => ⟨⟨h.types, h.made, h.texts, h.invented⟩, hP⟩

theorem follows_customScalar? (p : Primitive) :
    Follows (AlikeWith R P) (AlikeWith R P) (customScalar? options p) (customScalar? options p) := by
  unfold customScalar?
  cases (options.scalar? p.raw).orElse fun _ => options.scalar? p.name with
  | some s => exact follows_pure id _
  | none =>
    cases options.factory with
    | none => exact follows_pure id _
    | some make =>
      refine follows_call.bind fun _ => ?_
      cases make p with
      | ok s => exact follows_pure id s
      | error fault => exact follows_throw _

theorem follows_primitive (p : Primitive) :
    Follows (AlikeWith R P) (AlikeWith R P) (primitive options p) (primitive options p) := by
  unfold primitive
  refine follows_ite (fun _ => follows_pure id _) fun _ => ?_
  refine (follows_customScalar? p).bind fun s => ?_
  cases s with
  | some s =>
    refine follows_get_bind fun d d' ⟨h, _⟩ => ?_
    rw [h.isScalar_eq]
    exact follows_ite (fun _ => follows_claim.bind fun _ => follows_pure id _)
      fun _ => follows_pure id _
  | none =>
    cases builtIn? p with
    | some b => exact follows_pure id _
    | none => exact follows_fail

/-- Noting what a slot has become, at the end. -/
theorem follows_noted {modes : List Mode} (hslot : R slot slot') (hP : Notes P Q slot' modes) :
    Follows (AlikeWith R P) (AlikeWith R Q)
      (do
        note slot modes n
        return SchemaType.named n : Synth SchemaType)
      (do
        note slot' modes n
        return SchemaType.named n) :=
  (follows_note hslot hP).bind fun _ => follows_pure id _

theorem follows_textScalar {name doc : Option String} {texts : List String} (hslot : R slot slot')
    (hP : Notes P Q slot' [.input, .output]) :
    Follows (AlikeWith R P) (AlikeWith R Q) (textScalar slot name doc texts label)
      (textScalar slot' name doc texts label') := by
  unfold textScalar
  refine follows_get_bind fun d d' ⟨h, _⟩ => ?_
  rw [h.texts]
  cases (if name.isNone then d'.texts.lookup texts else none) with
  | some made => exact follows_noted hslot hP
  | none =>
    refine follows_named.bind fun _ => follows_claim.bind fun _ => follows_ite (fun _ => ?_) fun _ => ?_
    · refine Follows.bind (follows_modify fun {d d'} (h : AlikeWith R P d d') => ?_)
        fun _ => follows_noted hslot hP
      exact ⟨⟨h.1.types, h.1.made, by rw [h.1.texts], h.1.invented⟩, h.2⟩
    · exact follows_noted hslot hP

/-! ### Uses of types -/

/-- Visits of corresponding slots follow each other. -/
def VisitsAlike (R : Nat → Nat → Prop) (P : Made → Prop)
    (visit visit' : Nat → Mode → Synth SchemaType) : Prop :=
  ∀ slot slot' mode, R slot slot' →
    Follows (AlikeWith R P) (AlikeWith R P) (visit slot mode) (visit' slot' mode)

theorem follows_typeOf (hvisit : VisitsAlike R P visit visit') {t t' : TypeRef}
    (h : t.Alike R t') : Follows (AlikeWith R P) (AlikeWith R P) (typeOf options visit mode t)
      (typeOf options visit' mode t') := by
  induction h with
  | primitive => exact follows_primitive _
  | array _ ih => exact ih.bind fun _ => follows_pure id _
  | untypedArray | foreign => exact follows_fail
  | date => exact follows_claim.bind fun _ => follows_pure id _
  | node hslot => exact hvisit _ _ _ hslot

/-! ### Members -/

theorem follows_fieldName {m m' : Member} (h : m.Alike R m') : Follows (AlikeWith R P)
    (AlikeWith R P) (fieldName m label) (fieldName m' label') := by
  unfold fieldName
  rw [h.name]
  exact follows_ite (fun _ => follows_pure id _) fun _ => follows_fail

theorem follows_inputValues (hvisit : VisitsAlike R P visit visit') {ms ms' : List Member}
    (h : List.Forall₂ (Member.Alike R) ms ms') (acc : List InputValue) :
    Follows (AlikeWith R P) (AlikeWith R P) (inputValues options visit label ms acc)
      (inputValues options visit' label' ms' acc) := by
  induction h generalizing acc with
  | nil => exact follows_pure id acc
  | cons hm _ ih =>
    rw [inputValues, inputValues, hm.name]
    refine follows_ite (fun _ => ih acc) fun _ => ?_
    refine (follows_fieldName hm).bind fun _ => (follows_typeOf hvisit hm.type).bind fun type => ?_
    rw [hm.nullable_eq, hm.default, hm.doc]
    exact ih _

theorem follows_outputField (hg : Graph.Alike R g g') (hvisit : VisitsAlike R P visit visit')
    {m m' : Member} (h : m.Alike R m') : Follows (AlikeWith R P) (AlikeWith R P)
      (outputField g options visit label m) (outputField g' options visit' label' m') := by
  unfold outputField
  refine (follows_typeOf hvisit h.type).bind fun type => ?_
  rw [h.name, h.nullable_eq, h.doc]
  have hbag := h.arguments
  generalize m.arguments = bag, m'.arguments = bag' at hbag
  cases hbag with
  | some hslot =>
    exact (follows_inputValues hvisit (hg.membersAt hslot) []).bind fun _ => follows_pure id _
  | none => exact follows_pure id _

theorem follows_outputFields (hg : Graph.Alike R g g') (hvisit : VisitsAlike R P visit visit')
    {ms ms' : List Member} (h : List.Forall₂ (Member.Alike R) ms ms') (acc : List Field) :
    Follows (AlikeWith R P) (AlikeWith R P) (outputFields g options visit label ms acc)
      (outputFields g' options visit' label' ms' acc) := by
  induction h generalizing acc with
  | nil => exact follows_pure id acc
  | cons hm _ ih =>
    rw [outputFields, outputFields, hm.name]
    refine follows_ite (fun _ => ih acc) fun _ => ?_
    exact (follows_fieldName hm).bind fun _ =>
      (follows_outputField hg hvisit hm).bind fun field => ih _

/-! ### Records -/

theorem typenameOf_eq_of_alike {ms ms' : List Member} (h : List.Forall₂ (Member.Alike R) ms ms') :
    typenameOf ms = typenameOf ms' := by
  induction h with
  | nil => rfl
  | cons hm _ ih =>
    rw [typenameOf, typenameOf, List.findSome?_cons, List.findSome?_cons, hm.name, hm.type.text?_eq]
    split
    · rfl
    · exact ih

theorem follows_inlineName {ms ms' : List Member} {tag tag' : String}
    (h : List.Forall₂ (Member.Alike R) ms ms') : Follows (AlikeWith R P) (AlikeWith R P)
      (inlineName ms tag mode) (inlineName ms' tag' mode) := by
  unfold inlineName
  rw [typenameOf_eq_of_alike h]
  cases typenameOf ms' with
  | some name => exact follows_pure id _
  | none => exact follows_invent.bind fun _ => follows_record.bind fun _ => follows_pure id _

theorem follows_recordType (hg : Graph.Alike R g g') (hvisit : VisitsAlike R Q visit visit')
    {ms ms' : List Member} {doc : Option String} (h : List.Forall₂ (Member.Alike R) ms ms')
    (hslot : R slot slot') (hP : Notes P Q slot' [mode]) :
    Follows (AlikeWith R P) (AlikeWith R Q) (recordType g options visit slot mode n doc ms label)
      (recordType g' options visit' slot' mode n doc ms' label') := by
  unfold recordType
  refine follows_named.bind fun _ => ?_
  cases mode with
  | input =>
    exact follows_claim.bind fun _ => (follows_note hslot hP).bind fun _ =>
      (follows_inputValues hvisit h []).bind fun _ => follows_ite (fun _ => follows_fail_bind)
        fun _ => follows_define.bind fun _ => follows_pure id _
  | output =>
    exact follows_claim.bind fun _ => (follows_note hslot hP).bind fun _ =>
      (follows_outputFields hg hvisit h []).bind fun _ => follows_ite (fun _ => follows_fail_bind)
        fun _ => follows_define.bind fun _ => follows_pure id _

/-! ### Unions and enumerations -/

theorem follows_unionMember (hvisit : VisitsAlike R P visit visit') {t t' : TypeRef}
    (h : t.Alike R t') : Follows (AlikeWith R P) (AlikeWith R P)
      (unionMember g options visit label t) (unionMember g' options visit' label' t') := by
  refine (follows_typeOf hvisit h).bind fun type => ?_
  cases type with
  | named name =>
    refine follows_get_bind fun d d' ⟨h, _⟩ => ?_
    rw [h.isObject_eq]
    exact follows_ite (fun _ => follows_pure id _) fun _ => follows_fail
  | list | nonNull => exact follows_fail

theorem follows_unionMembers (hvisit : VisitsAlike R P visit visit') {types types' : List TypeRef}
    (h : List.Forall₂ (TypeRef.Alike R) types types') : Follows (AlikeWith R P) (AlikeWith R P)
      (unionMembers g options visit label types) (unionMembers g' options visit' label' types') := by
  unfold unionMembers
  exact Follows.mapM (fun _ _ ht => follows_unionMember hvisit ht) h

theorem follows_objectUnion (hvisit : VisitsAlike R Q visit visit') {name doc : Option String}
    {types types' : List TypeRef} (h : List.Forall₂ (TypeRef.Alike R) types types')
    (hslot : R slot slot') (hP : Notes P Q slot' [.output]) :
    Follows (AlikeWith R P) (AlikeWith R Q) (objectUnion g options visit slot name doc types label)
      (objectUnion g' options visit' slot' name doc types' label') := by
  have hrest : ∀ n, Follows (AlikeWith R P) (AlikeWith R Q) (do
      named n
      claim ⟨n, doc.map .ofString, .union []⟩ label
      note slot [.output] n
      let members ← unionMembers g options visit label types
      modify fun d => d.define n (.union members)
      return SchemaType.named n : Synth SchemaType) (do
      named n
      claim ⟨n, doc.map .ofString, .union []⟩ label'
      note slot' [.output] n
      let members ← unionMembers g' options visit' label' types'
      modify fun d => d.define n (.union members)
      return SchemaType.named n) := fun n =>
    follows_named.bind fun _ => follows_claim.bind fun _ =>
      (follows_note hslot hP).bind fun _ =>
        (follows_unionMembers hvisit h).bind fun _ =>
          follows_define.bind fun _ => follows_pure id _
  unfold objectUnion
  cases givenName name with
  | some n =>
    simp only [pure_bind]
    exact hrest n
  | none => exact follows_invent.bind hrest

theorem follows_unionType (hvisit : VisitsAlike R Q visit visit') {name doc : Option String}
    {types types' : List TypeRef} (h : List.Forall₂ (TypeRef.Alike R) types types')
    (hslot : R slot slot') (hP : ∀ modes, mode ∈ modes → Notes P Q slot' modes) :
    Follows (AlikeWith R P) (AlikeWith R Q)
      (unionType g options visit slot mode name doc types label)
      (unionType g' options visit' slot' mode name doc types' label') := by
  have hall : types.all (fun t => t.text?.isSome) = types'.all fun t => t.text?.isSome :=
    all_eq_of_forall₂ (fun _ _ ht => by rw [ht.text?_eq]) h
  have htexts : types.filterMap TypeRef.text? = types'.filterMap TypeRef.text? :=
    filterMap_eq_of_forall₂ (fun _ _ ht => ht.text?_eq) h
  have hprimitives : types.all (fun t => t.primitive?.isSome) =
      types'.all fun t => t.primitive?.isSome :=
    all_eq_of_forall₂ (fun _ _ ht => by rw [ht.primitive?_eq]) h
  unfold unionType
  rw [hall, htexts, hprimitives]
  refine follows_ite (fun _ => follows_textScalar hslot (hP _ (mem_both mode))) fun _ => ?_
  cases mode with
  | input => exact follows_fail
  | output =>
    refine follows_ite (fun _ => follows_fail) fun _ => ?_
    exact follows_objectUnion hvisit h hslot (hP _ (List.mem_singleton_self _))

theorem follows_enumValues {values values' : List TypeRef}
    (h : List.Forall₂ (TypeRef.Alike R) values values') (acc : List String) :
    Follows (AlikeWith R P) (AlikeWith R P) (enumValues g label values acc)
      (enumValues g' label' values' acc) := by
  induction h generalizing acc with
  | nil => exact follows_pure id acc
  | @cons t t' _ _ ht _ ih =>
    rw [enumValues, enumValues, ht.text?_eq]
    cases t'.text? with
    | none => exact follows_fail
    | some text => exact follows_ite (fun _ => follows_fail) fun _ => ih _

theorem follows_enumType {name : String} {doc : Option String} {values values' : List TypeRef}
    (h : List.Forall₂ (TypeRef.Alike R) values values') (hslot : R slot slot')
    (hP : Notes P Q slot' [.input, .output]) :
    Follows (AlikeWith R P) (AlikeWith R Q) (enumType g slot name doc values label)
      (enumType g' slot' name doc values' label') :=
  (follows_enumValues h []).bind fun _ => follows_named.bind fun _ => follows_claim.bind fun _ =>
    follows_noted hslot hP

/-! ### Slots -/

theorem follows_makeType (hg : Graph.Alike R g g') (hvisit : VisitsAlike R Q visit visit')
    (hslot : R slot slot') {descriptor descriptor' : Descriptor}
    (h : descriptor.shape.Alike R descriptor'.shape)
    (hP : ∀ modes, mode ∈ modes → Notes P Q slot' modes) :
    Follows (AlikeWith R P) (AlikeWith R Q) (makeType g options visit slot mode descriptor)
      (makeType g' options visit' slot' mode descriptor') := by
  unfold makeType
  generalize descriptor.shape = s, descriptor'.shape = s' at h
  cases h with
  | record hms =>
    exact follows_recordType hg hvisit hms hslot (hP _ (List.mem_singleton_self _))
  | inlineRecord hms =>
    exact (follows_inlineName hms).bind fun _ =>
      follows_recordType hg hvisit hms hslot (hP _ (List.mem_singleton_self _))
  | union htypes => exact follows_unionType hvisit htypes hslot hP
  | enumeration hvalues => exact follows_enumType hvalues hslot (hP _ (mem_both mode))

/-- A visit notes something new before it goes on to others. -/
theorem follows_visitStep (hg : Graph.Alike R g g')
    (hvisit : VisitsAlike R (HasNoted g' (count + 1)) visit visit') :
    VisitsAlike R (HasNoted g' count) (visitStep g options visit) (visitStep g' options visit') := by
  intro slot slot' mode hslot
  rintro d d' t e ⟨h, hnoted⟩ hyields
  obtain ⟨descriptor, descriptor', hd, hd', hshapes⟩ := hg.shapes hslot
  have hat : d.made.lookup (slot, mode) = d'.made.lookup (slot', mode) := h.at?_eq hg hslot
  simp only [visitStep, yields_get_bind, hat, hd, hd'] at hyields ⊢
  cases hlookup : d'.made.lookup (slot', mode) with
  | some name =>
    simp only [hlookup] at hyields ⊢
    exact (follows_record.bind fun _ => follows_pure id _) d d' t e ⟨h, hnoted⟩ hyields
  | none =>
    simp only [hlookup] at hyields ⊢
    have hlt : slot' < g'.length := (List.getElem?_eq_some_iff.mp hd').1
    have hmakes : Follows _ _ (makeType g options visit slot mode descriptor)
        (makeType g' options visit' slot' mode descriptor') :=
      follows_makeType (P := fun made => HasNoted g' count made ∧ made.lookup (slot', mode) = none)
        hg hvisit hslot hshapes fun modes hmode made n hmade => hmade.1.note hlt hmade.2 hmode
    have hcounts : Follows _ (AlikeWith R (HasNoted g' count)) _ _ :=
      hmakes.mono id fun ht => ⟨ht.1, ht.2.pred⟩
    exact (follows_start.bind fun _ => hcounts) d d' t e ⟨h, hnoted, hlookup⟩ hyields

/-- **Visits follow each other**, as long as there is more to be noted than is underway. -/
theorem follows_visit (hg : Graph.Alike R g g') (depth : Nat) {depth' : Nat}
    (hdepth : 2 * g'.length < count + depth') :
    VisitsAlike R (HasNoted g' count) (Synthesis.visit g options depth)
      (Synthesis.visit g' options depth') := by
  induction depth generalizing count depth' with
  | zero => exact fun _ _ _ _ => follows_throw _
  | succ depth ih =>
    cases depth' with
    | zero =>
      rintro slot slot' mode - d d' t e ⟨-, hnoted⟩ -
      exact absurd hnoted.le (Nat.not_le.mpr hdepth)
    | succ depth' => exact follows_visitStep hg (ih (by omega))

/-! ### Roots -/

/-- The record in a slot has a name. -/
def IsNamed (g : Graph) (name : String) (slot : Nat) : Prop :=
  ∃ doc ms, g.shapeAt? slot = some (.record name doc ms)

/-- Records that have the names of roots correspond, and there is one of each name at most. -/
structure RootsAlike (R : Nat → Nat → Prop) (g g' : Graph) : Prop where
  left : ∀ {name slot}, name = queryRoot ∨ name = mutationRoot → IsNamed g name slot →
    ∃ slot', R slot slot'
  right : ∀ {name slot'}, name = queryRoot ∨ name = mutationRoot → IsNamed g' name slot' →
    ∃ slot, R slot slot'
  left_unique : ∀ {name slot other}, IsNamed g name slot → IsNamed g name other → slot = other
  right_unique : ∀ {name slot other}, IsNamed g' name slot → IsNamed g' name other → slot = other

theorem RootsAlike.swap (h : RootsAlike R g g') : RootsAlike (Function.swap R) g' g :=
  ⟨h.right, h.left, h.right_unique, h.left_unique⟩

/-- Roots are found wherever there is one of each name at most. -/
theorem exists_yields_findRoots {listed : List TypeRef} {roots : Roots} (hnodup : listed.Nodup)
    (hunique : ∀ name slot other, IsNamed g name slot → IsNamed g name other → slot = other)
    (hquery : roots.query ≠ none → ∀ slot, ¬IsRoot g listed queryRoot slot)
    (hmutation : roots.mutation ≠ none → ∀ slot, ¬IsRoot g listed mutationRoot slot) :
    ∃ found, Yields (findRoots g listed roots) d found d := by
  induction listed generalizing roots with
  | nil => exact ⟨roots, yields_pure.mpr ⟨rfl, rfl⟩⟩
  | cons r rest ih =>
    obtain ⟨hr, hrest⟩ := List.nodup_cons.mp hnodup
    have hkeep : ∀ {name : String} {old : Option Nat},
        (old ≠ none → ∀ slot, ¬IsRoot g (r :: rest) name slot) →
        old ≠ none → ∀ slot, ¬IsRoot g rest name slot :=
      fun h hold slot hroot => h hold slot ⟨List.mem_cons_of_mem _ hroot.1, hroot.2⟩
    unfold findRoots
    split
    · next slot name doc ms hs =>
      have hnamed : IsNamed g name slot := ⟨doc, ms, hs⟩
      have hroot : IsRoot g (.node slot :: rest) name slot := ⟨List.mem_cons_self .., hnamed⟩
      -- the only other slot with the name of a listed root would be listed twice
      have htake : ∀ slot', ¬IsRoot g rest name slot' := by
        rintro slot' ⟨hmem, hnamed'⟩
        rw [hunique name slot' slot hnamed' hnamed] at hmem
        exact hr hmem
      split
      · next hname =>
        subst hname
        split
        · next hsome => exact absurd hroot (hquery (Option.isSome_iff_ne_none.mp hsome) slot)
        · exact ih hrest (fun _ => htake) (hkeep hmutation)
      · split
        · next hname =>
          subst hname
          split
          · next hsome => exact absurd hroot (hmutation (Option.isSome_iff_ne_none.mp hsome) slot)
          · exact ih hrest (hkeep hquery) (fun _ => htake)
        · exact ih hrest (hkeep hquery) (hkeep hmutation)
    · exact ih hrest (hkeep hquery) (hkeep hmutation)

theorem isRoot_slots {name : String} :
    IsRoot g ((List.range g.length).map .node) name slot ↔ IsNamed g name slot := by
  constructor
  · exact fun h => h.2
  · rintro ⟨doc, ms, hs⟩
    obtain ⟨d, hd, -⟩ := Option.map_eq_some_iff.mp hs
    have hlt := (List.getElem?_eq_some_iff.mp hd).1
    exact ⟨List.mem_map.mpr ⟨slot, List.mem_range.mpr hlt, rfl⟩, doc, ms, hs⟩

theorem nodup_slots (g : Graph) : ((List.range g.length).map TypeRef.node).Nodup :=
  List.nodup_range.map fun _ _ => TypeRef.node.inj

theorem Graph.Alike.isNamed {name : String} (hg : Graph.Alike R g g') (hslot : R slot slot')
    (h : IsNamed g name slot) : IsNamed g' name slot' := by
  obtain ⟨d, d', hd, hd', halike⟩ := hg.shapes hslot
  obtain ⟨doc, ms, hs⟩ := h
  rw [Graph.shapeAt?, hd, Option.map_some, Option.some.injEq] at hs
  rw [hs] at halike
  generalize hs' : d'.shape = s' at halike
  cases halike with
  | record => exact ⟨_, _, by rw [Graph.shapeAt?, hd', Option.map_some, hs']⟩

/-- The roots that are found in graphs that are alike correspond. -/
theorem rel_of_isNamed {name : String} (hg : Graph.Alike R g g') (hroots : RootsAlike R g g')
    (hname : name = queryRoot ∨ name = mutationRoot) {root root' : Option Nat}
    (hroot : ∀ slot, root = some slot ↔ IsNamed g name slot)
    (hroot' : ∀ slot, root' = some slot ↔ IsNamed g' name slot) : Option.Rel R root root' := by
  cases root with
  | some slot =>
    have hnamed := (hroot slot).mp rfl
    obtain ⟨slot', hslot⟩ := hroots.left hname hnamed
    rw [(hroot' slot').mpr (Graph.Alike.isNamed hg hslot hnamed)]
    exact .some hslot
  | none =>
    cases root' with
    | none => exact .none
    | some slot' =>
      have hnamed := (hroot' slot').mp rfl
      obtain ⟨slot, hslot⟩ := hroots.right hname hnamed
      have hsome := (hroot slot).mpr (Graph.Alike.isNamed hg.flip hslot hnamed)
      cases hsome

theorem follows_rootType (hg : Graph.Alike R g g') {name : String} {root root' : Option Nat}
    (h : Option.Rel R root root') : Follows (AlikeWith R (HasNoted g' 0))
      (AlikeWith R (HasNoted g' 0)) (rootType g options name root)
      (rootType g' options name root') := by
  have hvisit : VisitsAlike R (HasNoted g' 0) (visit g options (depthBound g))
      (visit g' options (depthBound g')) :=
    follows_visit hg (depthBound g) (by unfold depthBound; omega)
  cases h with
  | some hslot =>
    exact follows_record.bind fun _ => (hvisit _ _ _ hslot).bind fun _ => follows_pure id _
  | none => exact follows_pure id _

/-! ### The schema -/

/-- Making the schema of roots that are found. -/
theorem follows_rooted (hg : Graph.Alike R g g') {roots roots' : Roots}
    (hquery : Option.Rel R roots.query roots'.query)
    (hmutation : Option.Rel R roots.mutation roots'.mutation) :
    Follows (AlikeWith R (HasNoted g' 0)) (AlikeWith R (HasNoted g' 0)) (do
      if roots.query.isNone && roots.mutation.isNone then fail "<schema>" .noRoot
      let query ← rootType g options queryRoot roots.query
      let mutation ← rootType g options mutationRoot roots.mutation
      let claims := (← get).claims
      record (.synthesized claims.length)
      return ⟨query, mutation, claims.map Claim.type⟩ : Synth Schema) (do
      if roots'.query.isNone && roots'.mutation.isNone then fail "<schema>" .noRoot
      let query ← rootType g' options queryRoot roots'.query
      let mutation ← rootType g' options mutationRoot roots'.mutation
      let claims := (← get).claims
      record (.synthesized claims.length)
      return ⟨query, mutation, claims.map Claim.type⟩) := by
  have hnone : ∀ {a b : Option Nat}, Option.Rel R a b → a.isNone = b.isNone := by
    rintro _ _ (h | _) <;> rfl
  rw [hnone hquery, hnone hmutation]
  refine follows_ite (fun _ => follows_fail_bind) fun _ => (follows_rootType hg hquery).bind
    fun _ => (follows_rootType hg hmutation).bind fun _ => follows_get_bind fun d d' ⟨h, _⟩ => ?_
  have htypes : d.claims.map Claim.type = d'.claims.map Claim.type := h.types
  simp only [htypes]
  exact follows_record.bind fun _ => follows_pure id _

/-- A schema of one graph is the schema of the other one. -/
theorem synthesize_of_alike (hg : Graph.Alike R g g') (hroots : RootsAlike R g g')
    {schema : Schema} (h : synthesize g options = .ok schema) :
    synthesize g' options = .ok schema := by
  obtain ⟨d, hrun⟩ : ∃ d, Yields (run g ((List.range g.length).map .node) options) Draft.empty
      schema d := ⟨_, Prod.ext h rfl⟩
  obtain ⟨roots, e, hfound, hrest⟩ := yields_bind.mp hrun
  obtain ⟨rfl, hquery, hmutation⟩ := yields_findRoots hfound
  obtain ⟨roots', hfound'⟩ : ∃ roots', Yields
      (findRoots g' ((List.range g'.length).map .node) ⟨none, none⟩) Draft.empty roots' Draft.empty :=
    exists_yields_findRoots (nodup_slots g') (fun _ _ _ => hroots.right_unique)
      (fun h => absurd rfl h) (fun h => absurd rfl h)
  obtain ⟨-, hquery', hmutation'⟩ := yields_findRoots hfound'
  have hnamed : ∀ {g : Graph} {name : String} {root : Option Nat},
      FoundRoot g ((List.range g.length).map .node) name none root →
      ∀ slot, root = some slot ↔ IsNamed g name slot := by
    intro g name root hroot slot
    rw [hroot slot, isRoot_slots]
    simp
  have hstart : AlikeWith R (HasNoted g' 0) Draft.empty Draft.empty :=
    ⟨⟨rfl, .nil, rfl, rfl⟩, [], List.nodup_nil, Nat.le_refl _, fun _ hp => absurd hp List.not_mem_nil⟩
  obtain ⟨d', hrest', -⟩ := follows_rooted hg
    (rel_of_isNamed hg hroots (.inl rfl) (hnamed hquery) (hnamed hquery'))
    (rel_of_isNamed hg hroots (.inr rfl) (hnamed hmutation) (hnamed hmutation')) _ _ _ _ hstart hrest
  have hrun' : Yields (run g' ((List.range g'.length).map .node) options) Draft.empty schema d' :=
    yields_bind.mpr ⟨roots', Draft.empty, hfound', hrest'⟩
  exact congrArg Prod.fst hrun'

/-- **Graphs that are alike** have the same schema, if any. -/
theorem synthesize_iff_of_alike (hg : Graph.Alike R g g') (hroots : RootsAlike R g g')
    {schema : Schema} : synthesize g options = .ok schema ↔ synthesize g' options = .ok schema :=
  ⟨synthesize_of_alike hg hroots, synthesize_of_alike hg.flip hroots.swap⟩

end Synthesis

end DeclaredSchema
