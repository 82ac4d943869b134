import DeclaredSchema.Proofs.Extraction.Blame

/-!
# A complete table excludes every cause of failure

A run that succeeds leaves a complete table, and has made sure on the way that no generic name
stands without its arguments and that no alternatives are mixed. Both do not depend on the run any
more, so the table shows that nothing is wrong with the file, whoever looks at it and in whatever
order.

Only defaults are an exception. Whether one is accepted depends on the moment at which it is
checked, so the file must have none.

## Main definitions

* `Accepts` — what a table shows to have been made sure of
* `IsAccepted` — nothing is misplaced or mixed in a file
* `UsesDefault` — a member of the file has a default annotation

## Main results

* `Moves.accepts` — moves make sure of it
* `isAccepted_of_run` — a run that succeeds shows that its file is accepted
* `IsAccepted.not_cause` — nothing is wrong with a file that is accepted and has a complete table
-/

namespace DeclaredSchema

/-- All types that a shape mentions have the property; an enumeration mentions none. -/
def Shape.AllTypes (P : TypeRef → Prop) : Shape → Prop
  | .record _ _ ms | .inlineRecord _ _ ms => ∀ m ∈ ms, P m.type
  | .union _ _ types => ∀ t ∈ types, P t
  | .enumeration .. => True

def Shape.isUnion : Shape → Bool
  | .union .. => true
  | _ => false

/-- The type of a member besides its parameters. -/
def Property.result (p : Property TypeExpr) : TypeExpr :=
  match p.type with
  | .function _ result => result
  | type => type

/-- A member of the file has a default annotation. -/
def UsesDefault (scope : Scope) : Prop :=
  ∃ s ps position p, IsAt scope ⟨s, .object ps position⟩ ∧ p ∈ ps ∧
    ∃ arguments position', p.result = .reference Extraction.defaultName arguments position'

namespace Extraction

variable {ctx : ExtractionContext} {U : Nat → Prop} {r r' : Registry} {top : Option Nat}
  {n m : Node} {s : Signature} {t : TypeRef} {key : NodeKey} {shape : Shape} {slot : Nat}
  {keys : List NodeKey} {records : Nat → Prop} {f : Shape → Shape} {steps : List LineageStep}

/-! ### What moves make sure of -/

/-- What a table shows to have been made sure of while the slots of `U` are underway. -/
structure Accepts (ctx : ExtractionContext) (U : Nat → Prop) (r : Registry) : Prop where
  length : r.keys.length = r.graph.length
  types : ∀ d ∈ r.graph, d.shape.AllTypes (IsSayable ctx.scope)
  unmixed : ∀ {i : Nat} {key : NodeKey} {d : Descriptor}, r.keys[i]? = some key →
    r.graph[i]? = some d → d.shape.isUnion = true → IsUnmixed ctx key
  inherits : ∀ {i : Nat} {key : NodeKey} {d : Descriptor}, r.keys[i]? = some key →
    r.graph[i]? = some d → ¬U i → d.shape.members?.isSome = true → Inherits ctx r.keys key

theorem Moves.keys_grow (h : Moves ctx top r r') : r.keys <+: r'.keys := by
  induction h with
  | done => exact List.prefix_refl _
  | record _ _ _ _ _ ih ihinner | union _ _ _ ih ihinner =>
    exact ih.trans ((List.prefix_append _ _).trans ihinner)
  | enumeration _ ih | texts _ ih => exact ih.trans (List.prefix_append _ _)
  | alternative _ _ ih => exact ih

theorem Inherits.mono {keys' : List NodeKey} (h : Inherits ctx keys key) (hkeys : keys <+: keys') :
    Inherits ctx keys' key := by
  intro d hd hname s hs
  obtain ⟨t, ht, hsayable⟩ := h d hd hname s hs
  exact ⟨t, ht.mono hkeys, hsayable⟩

/-- A change that leaves unions unions and records records, and only mentions what may be said. -/
structure KeepsAccepted (ctx : ExtractionContext) (f : Shape → Shape) : Prop where
  types : ∀ s, s.AllTypes (IsSayable ctx.scope) → (f s).AllTypes (IsSayable ctx.scope)
  unions : ∀ s, (f s).isUnion = s.isUnion
  records : ∀ s, (f s).members?.isSome = s.members?.isSome

namespace Accepts

theorem empty : Accepts ctx U Registry.empty where
  length := rfl
  types _ h := absurd h List.not_mem_nil
  unmixed h := by cases h
  inherits h := by cases h

/-- A slot that is taken is underway. -/
theorem add (h : Accepts ctx U r) (htypes : shape.AllTypes (IsSayable ctx.scope))
    (hunmixed : shape.isUnion = true → IsUnmixed ctx key) :
    Accepts ctx (also U r.graph.length) (r.add key shape) := by
  have hcases : ∀ {i : Nat} {key' : NodeKey} {d : Descriptor},
      (r.add key shape).keys[i]? = some key' → (r.add key shape).graph[i]? = some d →
      r.keys[i]? = some key' ∧ r.graph[i]? = some d ∨
        i = r.graph.length ∧ key' = key ∧ d.shape = shape := by
    intro i key' d hkey hd
    rcases Nat.lt_trichotomy i r.graph.length with hlt | rfl | hgt
    · rw [Registry.keys_add, List.getElem?_append_left (h.length ▸ hlt)] at hkey
      rw [Registry.add, List.getElem?_append_left hlt] at hd
      exact .inl ⟨hkey, hd⟩
    · rw [getElem?_keys_add h.length] at hkey
      rw [getElem?_graph_add] at hd
      exact .inr ⟨rfl, (Option.some.inj hkey).symm, by rw [← Option.some.inj hd]⟩
    · have hlt := (List.getElem?_eq_some_iff.mp hd).1
      rw [Registry.length_graph_add] at hlt
      omega
  refine ⟨?_, fun d hd => ?_, fun hkey hd hunion => ?_, fun hkey hd hunder hrecord => ?_⟩
  · rw [Registry.keys_add, List.length_append, List.length_singleton, Registry.length_graph_add,
      h.length]
  · rcases List.mem_append.mp hd with hd | hd
    · exact h.types d hd
    · rw [List.mem_singleton.mp hd]
      exact htypes
  · rcases hcases hkey hd with ⟨hkey, hd⟩ | ⟨-, rfl, rfl⟩
    · exact h.unmixed hkey hd hunion
    · exact hunmixed hunion
  · rcases hcases hkey hd with ⟨hkey, hd⟩ | ⟨rfl, -, -⟩
    · have hinherits := h.inherits hkey hd (fun hu => hunder (.inl hu)) hrecord
      exact hinherits.mono (List.prefix_append _ _)
    · exact absurd (.inr rfl) hunder

theorem update (h : Accepts ctx U r) (hf : KeepsAccepted ctx f) :
    Accepts ctx U (r.update slot f) := by
  have hcases : ∀ {i : Nat} {d : Descriptor}, (r.update slot f).graph[i]? = some d →
      ∃ d', r.graph[i]? = some d' ∧ (d.shape = d'.shape ∨ d.shape = f d'.shape) := by
    intro i d hd
    rw [getElem?_graph_update] at hd
    split at hd
    · obtain ⟨d', hd', rfl⟩ := Option.map_eq_some_iff.mp hd
      exact ⟨d', hd', .inr rfl⟩
    · exact ⟨d, hd, .inl rfl⟩
  refine ⟨?_, fun d hd => ?_, fun hkey hd hunion => ?_, fun hkey hd hunder hrecord => ?_⟩
  · rw [Registry.keys_update, Registry.length_graph_update, h.length]
  · obtain ⟨i, hi⟩ := List.mem_iff_getElem?.mp hd
    obtain ⟨d', hd', heq | heq⟩ := hcases hi <;> rw [heq]
    · exact h.types d' (List.mem_of_getElem? hd')
    · exact hf.types _ (h.types d' (List.mem_of_getElem? hd'))
  · obtain ⟨d', hd', heq | heq⟩ := hcases hd <;> rw [heq] at hunion
    · exact h.unmixed hkey hd' hunion
    · exact h.unmixed hkey hd' ((hf.unions _).symm.trans hunion)
  · obtain ⟨d', hd', heq | heq⟩ := hcases hd <;> rw [heq] at hrecord
    · exact h.inherits hkey hd' hunder hrecord
    · exact h.inherits hkey hd' hunder ((hf.records _).symm.trans hrecord)

/-- A slot is not underway any more, if what holds of records holds of it. -/
theorem finish (h : Accepts ctx (also U slot) r)
    (hslot : ∀ {key d}, r.keys[slot]? = some key → r.graph[slot]? = some d →
      d.shape.members?.isSome = true → Inherits ctx r.keys key) : Accepts ctx U r where
  length := h.length
  types := h.types
  unmixed := h.unmixed
  inherits {i key d} hkey hd hunder hrecord := by
    by_cases heq : i = slot
    · subst heq
      exact hslot hkey hd hrecord
    · exact h.inherits hkey hd (fun hu => hu.elim hunder heq) hrecord

end Accepts

theorem keepsAccepted_withMembers {ms : List Member} (hms : ∀ m ∈ ms, IsSayable ctx.scope m.type) :
    KeepsAccepted ctx (Shape.withMembers ms) := by
  constructor <;> intro s
  · cases s with
    | record | inlineRecord => exact fun _ => hms
    | union | enumeration => exact id
  · cases s <;> rfl
  · cases s <;> rfl

theorem keepsAccepted_withValues {values : List TypeRef} :
    KeepsAccepted ctx (Shape.withValues values) := by
  constructor <;> intro s
  · cases s with
    | record | inlineRecord | union => exact id
    | enumeration => exact fun _ => trivial
  · cases s <;> rfl
  · cases s <;> rfl

theorem keepsAccepted_addAlternative (ht : IsSayable ctx.scope t) :
    KeepsAccepted ctx (Shape.addAlternative t) := by
  constructor <;> intro s
  · cases s with
    | record | inlineRecord | enumeration => exact id
    | union name doc types => exact fun h => List.forall_mem_cons.mpr ⟨ht, h⟩
  · cases s <;> rfl
  · cases s <;> rfl

theorem keepsAccepted_reverseAlternatives : KeepsAccepted ctx Shape.reverseAlternatives := by
  constructor <;> intro s
  · cases s with
    | record | inlineRecord | enumeration => exact id
    | union name doc types => exact fun h t ht => h t (List.mem_reverse.mp ht)
  · cases s <;> rfl
  · cases s <;> rfl

/-- **Moves** make sure of what they accept. -/
theorem Moves.accepts (h : Moves ctx top r r') (hr : Accepts ctx U r) : Accepts ctx U r' := by
  induction h generalizing U with
  | done => exact hr
  | @record _ _ r₁ r₂ key shape ms _ hempty hinner hsound hinherits ih ihinner =>
    have hr₁ := ih hr
    have hnew : shape.AllTypes (IsSayable ctx.scope) ∧ shape.isUnion = false := by
      cases shape with
      | record | inlineRecord =>
        cases hempty
        exact ⟨fun _ h => absurd h List.not_mem_nil, rfl⟩
      | union | enumeration => cases hempty
    have hunmixed : shape.isUnion = true → IsUnmixed ctx key := fun hunion =>
      absurd (hnew.2.symm.trans hunion) Bool.false_ne_true
    have hr₂ := ihinner (hr₁.add hnew.1 hunmixed)
    refine (hr₂.update (keepsAccepted_withMembers fun m hm => (hsound m hm).sayable)).finish ?_
    intro key' d hkey _ _
    have hold := getElem?_of_isPrefix hinner.keys_grow (getElem?_keys_add hr₁.length)
    obtain rfl := Option.some.inj (hold.symm.trans hkey)
    exact hinherits hr₁.length
  | @enumeration _ _ r₁ key name doc values _ ih =>
    have hadded : Accepts ctx (also U r₁.graph.length) (r₁.add key (.enumeration name doc [])) :=
      (ih hr).add trivial nofun
    refine (hadded.update keepsAccepted_withValues).finish fun hkey hd hrecord => ?_
    rw [getElem?_graph_update, if_pos rfl, getElem?_graph_add] at hd
    cases hd
    cases hrecord
  | @texts _ _ r₁ key name doc values _ ih =>
    have hadded : Accepts ctx (also U r₁.graph.length)
        (r₁.add key (.enumeration name doc values)) := (ih hr).add trivial nofun
    refine hadded.finish fun hkey hd hrecord => ?_
    rw [getElem?_graph_add] at hd
    cases hd
    cases hrecord
  | @union _ _ r₁ r₂ key name doc _ hunmixed hinner ih ihinner =>
    have hadded : Accepts ctx (also U r₁.graph.length) (r₁.add key (.union name doc [])) :=
      (ih hr).add (fun _ h => absurd h List.not_mem_nil) fun _ => hunmixed
    refine ((ihinner hadded).update keepsAccepted_reverseAlternatives).finish
      fun hkey hd hrecord => ?_
    obtain ⟨more, hmore⟩ := hinner.lengthens.underway rfl getElem?_graph_add
    rw [getElem?_graph_update, if_pos rfl, hmore] at hd
    cases hd
    cases hrecord
  | alternative _ ht ih => exact (ih hr).update (keepsAccepted_addAlternative ht)

/-! ### Files that are accepted -/

/-- Nothing is misplaced or mixed in a file. -/
structure IsAccepted (ctx : ExtractionContext) : Prop where
  placed : ∀ {s name position}, Resolved ctx ⟨s, .reference name [] position⟩ →
    name ∈ genericNames → ctx.scope.find? name ≠ none
  unmixed : ∀ {d}, .typeAlias d ∈ ctx.scope → namesShape ctx.scope d = true →
    isMixed ctx (alternatives ctx.scope d.node) = false

theorem IsAlternative.unique {scope : Scope} {t' : TypeRef} (h : IsAlternative scope keys n t)
    (h' : IsAlternative scope keys n t') : t = t' := by
  obtain ⟨inner, hstrips, hdenotes⟩ := h
  obtain ⟨inner', hstrips', hdenotes'⟩ := h'
  obtain rfl := hstrips.unique hstrips'
  exact hdenotes.unique hdenotes'

/-- What a member needs is sayable if its type is. -/
theorem IsMember.sayable {scope : Scope} {x : Member} (h : IsMember scope keys records s x)
    (htype : ∀ t, IsAlternative scope keys (typeOf s) t → IsSayable scope t) (hn : n ∈ parts s)
    (ht : IsAlternative scope keys n t) : IsSayable scope t := by
  obtain rfl | ⟨p, hp, rfl⟩ := mem_parts.mp hn
  · exact htype t ht
  · obtain ⟨slot, hslot⟩ := h.arguments.exists_of_parameter hp
    rw [ht.unique hslot]
    trivial

theorem sayable_of_members {scope : Scope} {ss : List Signature} {ms : List Member}
    (h : List.Forall₂ (IsMember scope keys records) ss ms)
    (hms : ∀ x ∈ ms, IsSayable scope x.type) (hn : n ∈ ss.flatMap parts)
    (ht : IsAlternative scope keys n t) : IsSayable scope t := by
  obtain ⟨s, hs, hn⟩ := List.mem_flatMap.mp hn
  obtain ⟨x, hx, hmember⟩ := exists_of_forall₂ h hs
  refine hmember.sayable (fun t' ht' => ?_) hn ht
  obtain ⟨inner, hstrips, hdenotes, -⟩ := hmember.type
  rw [ht'.unique ⟨inner, hstrips, hdenotes⟩]
  exact hms x hx

theorem sayable_of_alternatives {scope : Scope} {ns : List Node} {types : List TypeRef}
    (h : List.Forall₂ (IsAlternative scope keys) ns types) (htypes : ∀ t ∈ types, IsSayable scope t)
    (hn : n ∈ ns) (ht : IsAlternative scope keys n t) : IsSayable scope t := by
  obtain ⟨t', hmem, ht'⟩ := exists_of_forall₂ h hn
  rw [ht.unique ht']
  exact htypes t' hmem

/-- What a declaration needs is sayable, if what its slot mentions is. -/
theorem Fills.sayable_of_mem_declarationNeeds (hscope : IsUnambiguous ctx.scope) {d : Declaration}
    (hd : d ∈ ctx.scope) (h : Fills ctx keys records (Resolved ctx) (.declared d.name) shape)
    (htypes : shape.AllTypes (IsSayable ctx.scope))
    (hinherits : shape.members?.isSome = true → Inherits ctx keys (.declared d.name))
    (hn : n ∈ declarationNeeds ctx d) (ht : IsAlternative ctx.scope keys n t) :
    IsSayable ctx.scope t := by
  cases h.completesDeclaration hscope hd with
  | interface hall =>
    obtain ⟨step, hstep, hn⟩ := List.mem_flatMap.mp hn
    obtain ⟨x, -, s, rfl, hmember⟩ := exists_of_forall₂ hall hstep
    refine hmember.sayable (fun t' ht' => ?_) hn ht
    obtain ⟨t'', ht'', hsayable⟩ := hinherits rfl _ hd rfl s hstep
    rwa [ht'.unique ht'']
  | enumeration => cases hn
  | objectAlias hshape hobject hall =>
    rw [declarationNeeds_object hshape hobject] at hn
    exact sayable_of_members hall htypes hn ht
  | unionAlias hshape hunion htexts hall =>
    rw [declarationNeeds_union hshape hunion htexts] at hn
    exact sayable_of_alternatives hall htypes hn ht
  | textAlias hshape htexts =>
    rw [declarationNeeds_texts hshape htexts] at hn
    cases hn

/-- What an inline type needs is sayable, if what its slot mentions is. -/
theorem Fills.sayable_of_mem_needs (hscope : IsUnambiguous ctx.scope) {site : Site} {e : TypeExpr}
    (hn : Resolved ctx ⟨site, e⟩)
    (h : Fills ctx keys records (Resolved ctx) (.inline site) shape)
    (htypes : shape.AllTypes (IsSayable ctx.scope)) (hm : m ∈ needs ctx ⟨site, e⟩)
    (ht : IsAlternative ctx.scope keys m t) : IsSayable ctx.scope t := by
  cases h.completesInline hscope (hn.isAt hscope) with
  | @object ps position owner ms hall =>
    have hm : m ∈ (site.signatures owner ps).flatMap parts := by
      rw [flatMap_parts_signatures]
      exact hm
    exact sayable_of_members hall htypes hm ht
  | union hall => exact sayable_of_alternatives hall htypes hm ht

theorem IsComplete.exists_slot (h : IsComplete ctx r) (hkey : key ∈ r.keys) :
    ∃ (slot : Nat) (shape : Shape), r.keys[slot]? = some key ∧
      r.graph[slot]? = some ⟨slot + 1, shape⟩ ∧
      Fills ctx r.keys (recordsOf r) (Resolved ctx) key shape := by
  obtain ⟨slot, hslot⟩ := List.mem_iff_getElem?.mp hkey
  obtain ⟨shape, hshape, hfills⟩ := h.filled hslot id
  exact ⟨slot, shape, hslot, hshape, hfills⟩

/-- What is resolved stands for something that is sayable. -/
theorem IsComplete.exists_sayable (h : IsComplete ctx r) (hscope : IsUnambiguous ctx.scope)
    (haccepts : Accepts ctx (fun _ => False) r) (hn : Resolved ctx n) :
    ∃ raw t, Denotes ctx.scope r.keys n raw t ∧ IsSayable ctx.scope t := by
  refine h.exists_denotes_of hscope ?declared ?inline id hn
  case declared =>
    intro d m t hd hm ht
    obtain ⟨slot, shape, hslot, hshape, hfills⟩ :=
      h.exists_slot (h.declared hd (hasSlot_of_mem_declarationNeeds hm))
    exact hfills.sayable_of_mem_declarationNeeds hscope hd
      (haccepts.types _ (List.mem_of_getElem? hshape))
      (haccepts.inherits (d := ⟨slot + 1, shape⟩) hslot hshape id) hm ht
  case inline =>
    rintro ⟨site, e⟩ m t hn he hm ht
    obtain ⟨raw, t', hdenotes⟩ := h.exists_denotes hscope hn
    have hkey : ∃ slot, slotIn r.keys (.inline site) = some slot := by
      cases hdenotes with
      | object hslot | union hslot => exact ⟨_, hslot⟩
      | keyword | literal | array | declared | arrayName | date | openScalar =>
        rcases he with he | he <;> cases he
    obtain ⟨slot, hslot⟩ := hkey
    obtain ⟨slot', shape, hslot', hshape, hfills⟩ :=
      h.exists_slot (List.mem_of_getElem? (getElem?_of_slotIn hslot))
    have hsayable := haccepts.types _ (List.mem_of_getElem? hshape)
    exact hfills.sayable_of_mem_needs hscope hn hsayable hm ht

/-- The slot of an alias whose alternatives are mixed would be a union. -/
theorem Fills.isUnion_of_isMixed (hscope : IsUnambiguous ctx.scope) {d : Alias}
    (hd : .typeAlias d ∈ ctx.scope)
    (h : Fills ctx keys records (Resolved ctx) (.declared d.name) shape)
    (hmixed : isMixed ctx (alternatives ctx.scope d.node) = true) : shape.isUnion = true := by
  simp only [isMixed, Bool.and_eq_true, Bool.not_eq_true'] at hmixed
  obtain ⟨⟨⟨hasked, hliterals⟩, -⟩, hsome⟩ := hmixed
  cases h.completesDeclaration hscope hd with
  | objectAlias hshape hobject =>
    rw [hobject] at hliterals
    cases hliterals
  | unionAlias => rfl
  | textAlias hshape htexts =>
    rw [isTextEnumeration, all_text_eq, hsome, Bool.and_false, Bool.and_false] at htexts
    cases htexts

/-- **A run that succeeds** shows that its file is accepted. -/
theorem isAccepted_of_run {unionsAsEnums : Bool} {file : SourceUnit} {u : PUnit}
    (h : Yields (run unionsAsEnums file) Registry.empty u r) :
    IsAccepted ⟨file.declarations, unionsAsEnums⟩ := by
  obtain ⟨hscope, hcomplete, -⟩ := isComplete_of_run h
  have haccepts : Accepts ⟨file.declarations, unionsAsEnums⟩ (fun _ => False) r :=
    (moves_of_run h).accepts .empty
  constructor
  · intro s name position hn hname hfind
    obtain ⟨raw, t, hdenotes, hsayable⟩ := hcomplete.exists_sayable hscope haccepts hn
    cases hdenotes with
    | declared hd => cases hd.symm.trans hfind
    | date => exact absurd hname (by decide)
    | openScalar =>
      have hscalar : ∀ name ∈ genericNames, openScalar name = .primitive ⟨name, name, none⟩ := by
        decide
      rw [hscalar name hname] at hsayable
      exact hsayable name hname hfind rfl
  · intro d hd hshape
    obtain ⟨slot, shape, hslot, hgraph, hfills⟩ :=
      hcomplete.exists_slot (hcomplete.declared hd hshape)
    rw [← Bool.not_eq_true]
    intro hmixed
    have hunion := hfills.isUnion_of_isMixed hscope hd hmixed
    have hunmixed := haccepts.unmixed (d := ⟨slot + 1, shape⟩) hslot hgraph hunion d hd rfl
    rw [hmixed] at hunmixed
    cases hunmixed

/-! ### Nothing is wrong -/

/-- A key whose slot holds a record stands for one. -/
theorem Fills.exists_steps (h : Fills ctx keys records (Resolved ctx) key shape)
    (hrecord : shape.members?.isSome = true) : ∃ steps, RecordOf ctx key steps := by
  cases h with
  | interface hd => exact ⟨_, .interface hd⟩
  | objectAlias hd hshape hobject => exact ⟨_, .objectAlias hd hshape hobject⟩
  | @object site ps position owner ms hn => exact ⟨writtenMembers owner site ps, .object hn⟩
  | enumeration | unionAlias | textAlias | union => cases hrecord

theorem Fills.hasSlot (hscope : IsUnambiguous ctx.scope) {d : Declaration} (hd : d ∈ ctx.scope)
    (h : Fills ctx keys records (Resolved ctx) (.declared d.name) shape) :
    hasSlot ctx.scope d = true := by
  cases h.completesDeclaration hscope hd with
  | interface | enumeration => rfl
  | objectAlias hshape | unionAlias hshape | textAlias hshape => exact hshape

/-- A type that stands for a slot has its key. -/
theorem Denotes.exists_keyOf? {scope : Scope} {raw : Option String}
    (h : Denotes scope keys n raw (.node slot)) :
    ∃ key, keyOf? scope n = some key ∧ slotIn keys key = some slot := by
  cases h with
  | object hslot | union hslot => exact ⟨_, rfl, hslot⟩
  | declared hd hslot =>
    refine ⟨_, ?_, hslot⟩
    simp only [keyOf?, hd, Option.map_some]

theorem RecordOf.isWritten (hscope : IsUnambiguous ctx.scope) (h : RecordOf ctx key steps)
    (hs : .member s ∈ steps) : IsWritten ctx.scope s := by
  cases h with
  | interface hd => exact isWritten_of_mem_lineage (hscope _ hd) hs
  | objectAlias hd hshape hobject =>
    have hnode : IsAt ctx.scope (Alias.node _) := isAt_body (hscope _ hd) rfl
    have hat := isAt_of_mem_alternatives hnode (hobject ▸ List.mem_singleton_self _)
    exact isWritten_of_mem_writtenMembers hat hs
  | object hn => exact isWritten_of_mem_writtenMembers (hn.isAt hscope) hs

theorem expr_resultOf : (resultOf s).expr = s.property.result := by
  unfold resultOf Property.result
  split <;> simp_all

theorem usesDefault_of_isWritten {scope : Scope} {arguments : List TypeExpr} {position : Position}
    (h : IsWritten scope s)
    (hresult : (resultOf s).expr = .reference defaultName arguments position) :
    UsesDefault scope := by
  obtain ⟨site, ps, position', owner, hat, hs⟩ := h
  obtain ⟨⟨p, i⟩, hp, rfl⟩ := List.mem_map.mp hs
  rw [expr_resultOf] at hresult
  exact ⟨site, ps, position', p, hat, List.fst_mem_of_mem_zipIdx hp, arguments, position, hresult⟩

theorem expr_of_defaultOf {value : Literal} (h : defaultOf s = some value) :
    ∃ arguments position, (resultOf s).expr = .reference defaultName arguments position := by
  rw [defaultOf, splitDefaultOf] at h
  split at h
  · next name type value' position he =>
    split at h
    · next hname => exact ⟨_, _, hname ▸ he⟩
    · cases h
  · cases h

section Complete

variable (hscope : IsUnambiguous ctx.scope) (hcomplete : IsComplete ctx r)

include hscope hcomplete

/-- What is stripped stands for something. -/
theorem exists_isAlternative_of_needed (hn : Needed ctx n) :
    ∃ t, IsAlternative ctx.scope r.keys n t := by
  cases hn with
  | declared hd hn =>
    obtain ⟨shape, hfills⟩ :=
      hcomplete.fills (hcomplete.declared hd (hasSlot_of_mem_declarationNeeds hn))
    exact hfills.exists_of_mem_declarationNeeds hscope hd hn
  | nested hm hn =>
    obtain ⟨raw, t, hdenotes⟩ := hcomplete.exists_denotes hscope hm
    obtain ⟨t', ht', -⟩ := hcomplete.exists_of_mem_needs hscope hm hdenotes hn
    exact ⟨t', ht'⟩

/-- What is stripped has something inside. -/
theorem exists_strips_of_needed (hn : Needed ctx n) : ∃ t, Strips ctx.scope n t := by
  obtain ⟨t, inner, hstrips, -⟩ := exists_isAlternative_of_needed hscope hcomplete hn
  exact ⟨inner, hstrips⟩

/-- **Types** that are resolved are not rejected. -/
theorem IsAccepted.not_rejects (h : IsAccepted ctx) {fault : DeclarationFault}
    (hn : Resolved ctx n) : ¬Rejects ctx n fault := by
  intro hrejects
  obtain ⟨raw, t, hdenotes⟩ := hcomplete.exists_denotes hscope hn
  cases hrejects with
  | keyword hword =>
    cases hdenotes with
    | keyword hmeant => exact hmeant.elim hword.1 fun h => h.elim hword.2.1 hword.2.2
  | function => cases hdenotes
  | arrayArguments hfind harguments hname =>
    cases hdenotes with
    | declared hd => cases hd.symm.trans hfind
    | arrayName => exact harguments _ rfl
    | date => exact absurd hname (by decide)
    | openScalar =>
      exact h.placed hn (List.mem_cons_of_mem _ (List.contains_iff_mem.mp hname)) hfind
  | misplacedDefault hfind =>
    have harray : arrayNames.contains defaultName = false := by decide
    have hname : defaultName ∈ genericNames := List.mem_cons_self ..
    generalize defaultName = name at *
    cases hdenotes with
    | declared hd => cases hd.symm.trans hfind
    | arrayName _ harray' => exact absurd (harray.symm.trans harray') Bool.false_ne_true
    | date | openScalar => exact h.placed hn hname hfind
  | unknownGeneric hfind hname harguments =>
    cases hdenotes with
    | declared | date | openScalar => exact harguments rfl
    | arrayName _ hname' => exact absurd (hname.symm.trans hname') Bool.false_ne_true
  | notGeneric hfind harguments =>
    cases hdenotes with
    | declared | date | openScalar => exact harguments rfl
    | arrayName hd => cases hd.symm.trans hfind
  | unresolvedAlias hfind hshape =>
    cases hdenotes with
    | declared hd hslot =>
      cases hfind.symm.trans hd
      have hname := Scope.name_of_find? hfind
      obtain ⟨shape, hfills⟩ := hcomplete.fills (List.mem_of_getElem? (getElem?_of_slotIn hslot))
      rw [← hname] at hfills
      have hslot' := hfills.hasSlot hscope (Scope.mem_of_find? hfind)
      cases hslot'.symm.trans hshape
    | date hd | openScalar hd => cases hd.symm.trans hfind

/-- **Members** without a default are not rejected. -/
theorem not_rejectsMember (hdefault : ¬UsesDefault ctx.scope) (hkey : RecordOf ctx key steps)
    (hin : key ∈ r.keys) (hs : .member s ∈ steps) {fault : DeclarationFault} :
    ¬RejectsMember ctx s fault := by
  intro hrejects
  obtain ⟨shape, hfills⟩ := hcomplete.fills hin
  obtain ⟨x, s', hs', hmember⟩ := (hfills.of_recordOf hscope hkey).2 _ hs
  cases hs'
  have hbag := hmember.arguments
  unfold IsBag at hbag
  cases hrejects with
  | manyParameters hmany =>
    split at hbag
    · next hnone =>
      rw [hnone] at hmany
      exact absurd hmany (by simp)
    · next p hone =>
      rw [hone] at hmany
      exact absurd hmany (by simp)
    · exact hbag
  | parameterNotObject hone hstrips hnone =>
    rw [hone] at hbag
    obtain ⟨slot, ⟨inner, hstrips', hdenotes⟩, hrecord, -⟩ := hbag
    obtain rfl := hstrips.unique hstrips'
    obtain ⟨key', hkey', hslot⟩ := hdenotes.exists_keyOf?
    obtain ⟨d, hd, hmembers⟩ := recordsOf_iff.mp hrecord
    obtain ⟨shape', hshape, hfills'⟩ := hcomplete.filled (getElem?_of_slotIn hslot) id
    obtain rfl := Option.some.inj (hd.symm.trans hshape)
    obtain ⟨steps', hsteps'⟩ := hfills'.exists_steps hmembers
    exact hnone key' steps' hkey' hsteps'
  | malformedDefault hresult =>
    exact hdefault (usesDefault_of_isWritten (hkey.isWritten hscope hs) hresult)
  | defaultMismatch hvalue =>
    obtain ⟨arguments, position, hresult⟩ := expr_of_defaultOf hvalue
    exact hdefault (usesDefault_of_isWritten (hkey.isWritten hscope hs) hresult)

/-- The slot of a record is there. -/
theorem mem_keys_of_recordOf (hkey : RecordOf ctx key steps) : key ∈ r.keys := by
  cases hkey with
  | interface hd => exact hcomplete.declared hd rfl
  | objectAlias hd hshape => exact hcomplete.declared hd hshape
  | object hn =>
    obtain ⟨raw, t, hdenotes⟩ := hcomplete.exists_denotes hscope hn
    cases hdenotes with
    | object hslot => exact List.mem_of_getElem? (getElem?_of_slotIn hslot)

/-- **Nothing is wrong** with a file that is accepted, has a complete table and uses no default. -/
theorem IsAccepted.not_cause (h : IsAccepted ctx) (hdefault : ¬UsesDefault ctx.scope)
    {e : DeclarationError} : ¬Cause ctx e := by
  intro hcause
  cases hcause with
  | @wrapping n owner _ hn herror =>
    obtain ⟨t, hstrips⟩ := exists_strips_of_needed hscope hcomplete hn
    have hstrip := (stripAlike ctx.scope "" owner [] false none n t hstrips).1
    cases herror.symm.trans hstrip
  | type hn hrejects => exact h.not_rejects hscope hcomplete hn hrejects
  | member hkey hs hrejects =>
    exact not_rejectsMember hscope hcomplete hdefault hkey
      (mem_keys_of_recordOf hscope hcomplete hkey) hs hrejects
  | base hkey hstep hrejects =>
    obtain ⟨shape, hfills⟩ := hcomplete.fills (mem_keys_of_recordOf hscope hcomplete hkey)
    obtain ⟨x, s, rfl, -⟩ := (hfills.of_recordOf hscope hkey).2 _ hstep
    cases hrejects
  | @value d entry _ hd hentry hvalue =>
    obtain ⟨shape, hfills⟩ := hcomplete.fills (hcomplete.declared hd rfl)
    cases hfills.completesDeclaration hscope hd with
    | enumeration hall =>
      obtain ⟨t, -, text, htext, -⟩ := exists_of_forall₂ hall hentry
      exact hvalue text htext
  | mixed hd hshape hmixed => cases hmixed.symm.trans (h.unmixed hd hshape)

end Complete

end Extraction

end DeclaredSchema
