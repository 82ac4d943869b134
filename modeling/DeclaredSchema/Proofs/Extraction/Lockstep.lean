import DeclaredSchema.Proofs.Agreement
import DeclaredSchema.Proofs.Extraction.Cause

/-!
# Extractions in step

Two extractions of one file may differ in how deep they may go, and in whether unions of texts become
enumerations. They ask for the same slots in the same order all the same: what they do next depends
on the keys that are taken, on which slots are records, and on which defaults are admitted. So if
the tables of the two agree in these things, and stay related by whatever is done to a slot that is
underway, then the two stay in step, as far as their named unions do, which are the only place where
the two differ.

A slot is changed only by the step that took it, so two tables may differ in slots that are complete.

## Main definitions

* `IsLockstep` — a relation of tables that extraction cannot tell apart
* `InStep` — two steps agree, whatever slots are underway

## Main results

* `resolveStep_inStep` — one step of resolution, given the nested resolutions and the named unions
* `declare_inStep` — declarations
-/

namespace DeclaredSchema

namespace Extraction

/-- Tables of two extractions that agree in all that the next steps depend on, while the slots of
`U` are underway. Errors that show a label must be excused if labels may differ. -/
structure IsLockstep (X : ExtractionError → Prop)
    (S : (Nat → Prop) → Registry → Registry → Prop) : Prop where
  keys : ∀ {U r r'}, S U r r' → r.keys = r'.keys
  length : ∀ {U r r'}, S U r r' → r.graph.length = r'.graph.length
  isRecord : ∀ {U r r'}, S U r r' → ∀ t, r.graph.isRecord t = r'.graph.isRecord t
  admits : ∀ {U r r'}, S U r r' → ∀ t v, r.graph.admits t v = r'.graph.admits t v
  label : ∀ {U r r'}, S U r r' → (∀ t, r.graph.label t = r'.graph.label t) ∨ ∀ e, X e
  add : ∀ {U r r'}, S U r r' → ∀ key shape,
    S (also U r.graph.length) (r.add key shape) (r'.add key shape)
  update : ∀ {U r r' slot}, S U r r' → U slot → ∀ f, S U (r.update slot f) (r'.update slot f)
  finish : ∀ {U r r' slot}, S (also U slot) r r' → S U r r'

/-- Two steps agree, whatever slots are underway. -/
def InStep (X : ExtractionError → Prop) (S : (Nat → Prop) → Registry → Registry → Prop) {α : Type}
    (m m' : Extract α) : Prop :=
  ∀ U, Agrees X (S U) (S U) m m'

variable {X : ExtractionError → Prop} {S : (Nat → Prop) → Registry → Registry → Prop}
  {α β : Type} {U : Nat → Prop} {key : NodeKey} {shape : Shape} {slot : Nat}

theorem InStep.bind {m m' : Extract α} {f f' : α → Extract β} (hm : InStep X S m m')
    (hf : ∀ a, InStep X S (f a) (f' a)) : InStep X S (m >>= f) (m' >>= f') :=
  fun U => (hm U).bind fun a => hf a U

theorem InStep.map {m m' : Extract α} {f : α → β} (hm : InStep X S m m') :
    InStep X S (f <$> m) (f <$> m') :=
  fun U => (hm U).map

theorem inStep_pure (a : α) : InStep X S (pure a) (pure a) := fun _ => agrees_pure id a

theorem inStep_throw (e : ExtractionError) : InStep X S (throw e : Extract α) (throw e) :=
  fun _ => agrees_throw e

theorem inStep_fail {e : DeclarationError} : InStep X S (fail e : Extract α) (fail e) :=
  inStep_throw _

theorem inStep_failAt {position : Position} {declaration : String} {fault : DeclarationFault} :
    InStep X S (failAt position declaration fault : Extract α) (failAt position declaration fault) :=
  inStep_throw _

theorem inStep_failFor {declaration : String} {fault : DeclarationFault} :
    InStep X S (failFor declaration fault : Extract α) (failFor declaration fault) :=
  inStep_throw _

namespace IsLockstep

variable (h : IsLockstep X S)

include h

/-- Tables that extraction cannot tell apart, it cannot tell apart the other way round. -/
theorem flip : IsLockstep X fun U r r' => S U r' r where
  keys hr := (h.keys hr).symm
  length hr := (h.length hr).symm
  isRecord hr t := (h.isRecord hr t).symm
  admits hr t v := (h.admits hr t v).symm
  label hr := (h.label hr).imp_left fun hlabel t => (hlabel t).symm
  add hr key shape := by
    rw [← h.length hr]
    exact h.add hr key shape
  update := h.update
  finish := h.finish

/-- Both look up the slot of a key. -/
theorem slotOf_bind {f f' : Option Nat → Extract β} (hf : ∀ found, InStep X S (f found) (f' found)) :
    InStep X S (slotOf key >>= f) (slotOf key >>= f') := by
  refine InStep.bind (fun U => agrees_get_bind fun r r' hr => ?_) hf
  rw [Registry.slot?, Registry.slot?, h.keys hr]
  exact agrees_pure id _

/-- Both find the slot of a key, or both take a new one and complete it. -/
theorem slotOf_or {known : Nat → β} {fresh fresh' : Extract β} (hfresh : InStep X S fresh fresh') :
    InStep X S (do
      match ← slotOf key with
      | some slot => return known slot
      | none => fresh) (do
      match ← slotOf key with
      | some slot => return known slot
      | none => fresh') := by
  refine h.slotOf_bind fun found => ?_
  cases found with
  | some slot => exact inStep_pure (known slot)
  | none => exact hfresh

/-- Both take a slot, which is underway in what comes then. -/
theorem register_bind {f f' : Nat → Extract β}
    (hf : ∀ U slot, Agrees X (S (also U slot)) (S (also U slot)) (f slot) (f' slot)) :
    InStep X S (register key shape >>= f) (register key shape >>= f') := by
  refine fun U => ⟨fun r r' b t hr hyields => ?_, fun r r' e hr hfails => ?_⟩
  · obtain ⟨slot, a, hslot, hyields⟩ := yields_bind.mp hyields
    obtain ⟨rfl, rfl⟩ := yields_register.mp hslot
    obtain ⟨t', ht', ht⟩ := (hf U _).follows _ _ b t (h.add hr key shape) hyields
    exact ⟨t', yields_bind.mpr ⟨_, _, yields_register.mpr ⟨h.length hr, rfl⟩, ht'⟩, h.finish ht⟩
  · obtain ⟨slot, a, hslot, hfails⟩ := (fails_bind.mp hfails).resolve_left fails_register
    obtain ⟨rfl, rfl⟩ := yields_register.mp hslot
    refine ((hf U _).fails _ _ e (h.add hr key shape) hfails).imp_right fun hfails => ?_
    exact fails_bind.mpr (.inr ⟨_, _, yields_register.mpr ⟨h.length hr, rfl⟩, hfails⟩)

/-- Both take a slot that is complete at once. -/
theorem register : InStep X S (Extraction.register key shape) (Extraction.register key shape) := by
  rw [← bind_pure (Extraction.register key shape)]
  exact h.register_bind fun _ slot => agrees_pure id slot

/-- Both change a slot that is underway. -/
theorem change (hslot : U slot) (f : Shape → Shape) :
    Agrees X (S U) (S U) (Extraction.change slot f) (Extraction.change slot f) :=
  agrees_modify fun hr => h.update hr hslot f

end IsLockstep

/-! ### One step -/

/-- Nested resolutions that stay in step. -/
def ResolversInStep (X : ExtractionError → Prop) (S : (Nat → Prop) → Registry → Registry → Prop)
    (rec rec' : Resolver) : Prop :=
  ∀ n raw owner, InStep X S (rec n raw owner) (rec' n raw owner)

/-- Named unions that stay in step. -/
def NamedUnionsInStep (X : ExtractionError → Prop) (S : (Nat → Prop) → Registry → Registry → Prop)
    (ctx ctx' : ExtractionContext) (rec rec' : Resolver) : Prop :=
  ∀ d, .typeAlias d ∈ ctx.scope → namesShape ctx.scope d = true →
    InStep X S (namedUnion ctx rec d (alternatives ctx.scope d.node))
      (namedUnion ctx' rec' d (alternatives ctx.scope d.node))

section Step

variable {scope : Scope} {enums enums' : Bool} {rec rec' : Resolver} {n : Node} {s : Signature}
  {owner : String}

theorem stripped_inStep :
    InStep X S (stripped ⟨scope, enums⟩ owner n) (stripped ⟨scope, enums'⟩ owner n) := by
  unfold stripped
  cases strip scope owner [] false none n with
  | ok t => exact inStep_pure t
  | error e => exact inStep_fail

theorem splitDefault_inStep : InStep X S (splitDefault s n) (splitDefault s n) := by
  unfold splitDefault
  split
  · split
    · split
      · exact inStep_pure _
      · exact inStep_failAt
    · exact inStep_pure _
  · exact inStep_pure _

variable (h : IsLockstep X S) (hrec : ResolversInStep X S rec rec')

include hrec in
theorem alternative_inStep : InStep X S (alternative ⟨scope, enums⟩ rec owner n)
    (alternative ⟨scope, enums'⟩ rec' owner n) :=
  stripped_inStep.bind fun _ => hrec _ _ _

include hrec in
theorem array_inStep : InStep X S (array ⟨scope, enums⟩ rec n owner)
    (array ⟨scope, enums'⟩ rec' n owner) :=
  (alternative_inStep hrec).bind fun _ => inStep_pure _

include h hrec

theorem argumentBag_inStep {ps : List (Parameter TypeExpr)} :
    InStep X S (argumentBag ⟨scope, enums⟩ rec s ps) (argumentBag ⟨scope, enums'⟩ rec' s ps) := by
  match ps with
  | [] => exact inStep_pure none
  | [p] =>
    refine stripped_inStep.bind fun inner => (hrec _ _ _).bind fun bag U => ?_
    refine agrees_get_bind fun r r' hr => ?_
    cases bag with
    | node slot =>
      rw [h.isRecord hr]
      exact agrees_ite (fun _ => agrees_pure id _) fun _ => agrees_throw _
    | primitive | array | untypedArray | date | foreign => exact agrees_throw _
  | _ :: _ :: _ => exact inStep_failAt

theorem splitArguments_inStep :
    InStep X S (splitArguments ⟨scope, enums⟩ rec s) (splitArguments ⟨scope, enums'⟩ rec' s) := by
  unfold splitArguments
  split
  · exact (argumentBag_inStep h hrec).bind fun _ => inStep_pure _
  · exact inStep_pure _

/-- **Members** are the same: defaults are admitted by the one table if they are by the other. -/
theorem member_inStep :
    InStep X S (member ⟨scope, enums⟩ rec s) (member ⟨scope, enums'⟩ rec' s) := by
  refine (splitArguments_inStep h hrec).bind fun x => splitDefault_inStep.bind fun y =>
    stripped_inStep.bind fun inner => (hrec _ _ _).bind fun t U => ?_
  refine agrees_get_bind fun r r' hr => ?_
  cases y.2 with
  | none => exact agrees_pure id _
  | some value =>
    simp only [h.admits hr]
    refine agrees_ite (fun _ => ?_) fun _ => agrees_pure id _
    rcases h.label hr with hlabel | hexcused
    · rw [hlabel t]
      exact (agrees_throw (T := S U) _).bind fun _ => agrees_pure id _
    · refine Follows.agrees ?_ hexcused
      exact follows_throw_bind _

theorem members_inStep {ss : List Signature} :
    InStep X S (members ⟨scope, enums⟩ rec ss) (members ⟨scope, enums'⟩ rec' ss) :=
  fun U => .mapM (fun _ => member_inStep h hrec U) ss

theorem foldLineage_inStep {d : Interface} {ms : List Member} :
    InStep X S (foldLineage scope (inherit ⟨scope, enums⟩ rec) d ms)
      (foldLineage scope (inherit ⟨scope, enums'⟩ rec') d ms) := by
  intro U
  rw [foldLineage_eq_foldlM, foldLineage_eq_foldlM]
  refine .foldlM (fun acc step => ?_) _ _
  cases step with
  | member s => exact (member_inStep h hrec U).bind fun _ => agrees_pure id _
  | inheritsItself | notABase => exact agrees_throw _

/-! ### Slots -/

omit hrec in
/-- **A record** takes its slot, and gets its members when they are resolved. -/
theorem record_inStep {ms ms' : Extract (List Member)} (hms : InStep X S ms ms') :
    InStep X S
      (do
        let slot ← register key shape
        let ms ← ms
        change slot (Shape.withMembers ms)
        return slot)
      (do
        let slot ← register key shape
        let ms ← ms'
        change slot (Shape.withMembers ms)
        return slot) :=
  h.register_bind fun U slot => (hms (also U slot)).bind fun _ =>
    (h.change (.inr rfl) _).bind fun _ => agrees_pure id slot

theorem interface_inStep {d : Interface} :
    InStep X S (interface ⟨scope, enums⟩ rec d) (interface ⟨scope, enums'⟩ rec' d) :=
  h.slotOf_or (record_inStep h (foldLineage_inStep h hrec))

omit hrec in
theorem enumeration_inStep {d : Enumeration} : InStep X S (enumeration d) (enumeration d) := by
  refine h.slotOf_or (h.register_bind fun U slot => ?_)
  refine (Agrees.mapM (fun m => ?_) _).bind fun _ =>
    (h.change (.inr rfl) _).bind fun _ => agrees_pure id slot
  unfold enumValue
  split
  · exact agrees_pure id _
  · exact agrees_throw _

theorem fillUnion_inStep {ns : List Node} (hslot : U slot) :
    Agrees X (S U) (S U) (fillUnion ⟨scope, enums⟩ rec slot owner ns)
      (fillUnion ⟨scope, enums'⟩ rec' slot owner ns) := by
  induction ns with
  | nil => exact h.change hslot _
  | cons n rest ih =>
    exact (alternative_inStep hrec U).bind fun _ => (h.change hslot _).bind fun _ => ih

/-- **A union** takes its slot, and gets its alternatives one by one. -/
theorem newUnion_inStep {name doc : Option String} {ns : List Node} :
    InStep X S (newUnion ⟨scope, enums⟩ rec key name doc owner ns)
      (newUnion ⟨scope, enums'⟩ rec' key name doc owner ns) :=
  h.register_bind fun _ slot => (fillUnion_inStep h hrec (.inr rfl)).bind fun _ => agrees_pure id slot

/-- **A named union** is the same, if unions of texts are treated alike. -/
theorem namedUnion_inStep {d : Alias} {ns : List Node} :
    InStep X S (namedUnion ⟨scope, enums⟩ rec d ns) (namedUnion ⟨scope, enums⟩ rec' d ns) := by
  unfold namedUnion
  exact fun U => agrees_ite
    (fun _ => agrees_ite (fun _ => h.register U) fun _ => agrees_ite (fun _ => agrees_throw _)
      fun _ => newUnion_inStep h hrec U)
    fun _ => newUnion_inStep h hrec U

theorem inlineObject_inStep {site : Site} {ps : List (Property TypeExpr)} {position : Position} :
    InStep X S (inlineObject ⟨scope, enums⟩ rec site ps position owner)
      (inlineObject ⟨scope, enums'⟩ rec' site ps position owner) :=
  h.slotOf_or (record_inStep h (members_inStep h hrec))

theorem inlineUnion_inStep : InStep X S (inlineUnion ⟨scope, enums⟩ rec n owner)
    (inlineUnion ⟨scope, enums'⟩ rec' n owner) :=
  h.slotOf_or (newUnion_inStep h hrec)

/-! ### Type expressions -/

omit h in
theorem undeclared_inStep {site : Site} {name : String} {arguments : List TypeExpr}
    {position : Position} :
    InStep X S (undeclared ⟨scope, enums⟩ rec site name arguments position owner)
      (undeclared ⟨scope, enums'⟩ rec' site name arguments position owner) := by
  unfold undeclared
  refine fun U => agrees_ite (fun _ => ?_) fun _ => agrees_ite (fun _ => agrees_throw _) fun _ =>
    agrees_ite (fun _ => agrees_throw _) fun _ => agrees_ite (fun _ => agrees_pure id _) fun _ =>
    agrees_pure id _
  match arguments with
  | [element] => exact array_inStep hrec U
  | [] | _ :: _ :: _ => exact agrees_throw _

variable (hnamed : NamedUnionsInStep X S ⟨scope, enums⟩ ⟨scope, enums'⟩ rec rec')

include hnamed

theorem aliasSlot?_inStep {d : Alias} (hd : .typeAlias d ∈ scope) :
    InStep X S (aliasSlot? ⟨scope, enums⟩ rec d) (aliasSlot? ⟨scope, enums'⟩ rec' d) := by
  refine h.slotOf_or ?_
  by_cases hshape : namesShape scope d = true
  · have hunion := (hnamed d hd hshape).map (f := some)
    simp only [hshape, Bool.not_true, Bool.false_eq_true, if_false]
    split
    · exact h.register_bind fun U slot => (members_inStep h hrec (also U slot)).bind fun _ =>
        (h.change (.inr rfl) _).bind fun _ => agrees_pure id _
    · rw [map_eq_pure_bind, map_eq_pure_bind] at hunion
      exact hunion
  · simp only [hshape, Bool.not_false, if_true]
    exact inStep_pure none

theorem reference_inStep {site : Site} {name : String} {arguments : List TypeExpr}
    {position : Position} :
    InStep X S (reference ⟨scope, enums⟩ rec site name arguments position owner)
      (reference ⟨scope, enums'⟩ rec' site name arguments position owner) := by
  unfold reference
  cases hfind : scope.find? name with
  | none => exact undeclared_inStep hrec
  | some d =>
    have hd : d ∈ scope := Scope.mem_of_find? hfind
    refine fun U => agrees_ite (fun _ => agrees_throw _) fun _ => ?_
    cases d with
    | interface d => exact (interface_inStep h hrec).bind (fun _ => inStep_pure _) U
    | enumeration d => exact (enumeration_inStep h).bind (fun _ => inStep_pure _) U
    | typeAlias d =>
      refine (aliasSlot?_inStep h hrec hnamed hd).bind (fun found => ?_) U
      cases found with
      | some slot => exact inStep_pure _
      | none => exact inStep_failFor

/-- **One step** of resolution, given the nested resolutions and the named unions. -/
theorem resolveStep_inStep : ResolversInStep X S (resolveStep ⟨scope, enums⟩ rec)
    (resolveStep ⟨scope, enums'⟩ rec') := by
  rintro ⟨site, e⟩ raw owner
  cases e with
  | keyword word =>
    simp only [resolveStep]
    unfold keywordType
    split
    · exact inStep_pure _
    · exact inStep_pure _
    · exact inStep_pure _
    · exact inStep_failFor
  | literal value => exact inStep_pure _
  | array element => exact array_inStep hrec
  | object ps position => exact (inlineObject_inStep h hrec).bind fun _ => inStep_pure _
  | union es => exact (inlineUnion_inStep h hrec).bind fun _ => inStep_pure _
  | reference name arguments position => exact reference_inStep h hrec hnamed
  | function parameters result => exact inStep_failFor

/-- **Declarations** get the same slots. -/
theorem declare_inStep {d : Declaration} (hd : d ∈ scope) :
    InStep X S (declare ⟨scope, enums⟩ rec d) (declare ⟨scope, enums'⟩ rec' d) := by
  cases d with
  | interface d => exact (interface_inStep h hrec).map
  | enumeration d => exact (enumeration_inStep h).map
  | typeAlias d => exact (aliasSlot?_inStep h hrec hnamed hd).map

end Step

end Extraction

end DeclaredSchema
