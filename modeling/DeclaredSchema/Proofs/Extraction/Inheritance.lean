import DeclaredSchema.Proofs.Declaration.Inheritance
import DeclaredSchema.Proofs.Extraction.Blame

/-!
# Inherited members

The record of an interface has one member for each name in the sequence of all that the interface
extends and of its own members. The names keep the order in which they occur first, and the member
of a name is what its last occurrence stands for, at the place where that one is written. So a
member takes the place of an inherited one, through any number of interfaces and on any way to them.

Only clauses make circles. An interface that is mentioned by a member of its base is resolved while
the base is, and finds the members of the base by going through the clauses once more.

## Main definitions

* `IsLastOfName` — the last occurrence of a name in a sequence
* `IsResolution` — a member is what a signature gives whenever it is resolved
* `IsLinearised` — the record of an interface comes from its sequence

## Main results

* `inheritance_linearises` — the records of all interfaces do, and what is refused
-/

namespace DeclaredSchema

namespace Extraction

/-- No member of the same name follows in the sequence. -/
def IsLastOfName (xs : List Signature) (s : Signature) : Prop :=
  ∃ before after, xs = before ++ s :: after ∧ ∀ s' ∈ after, s'.property.name ≠ s.property.name

/-- `m` is what `s` stands for, by its name and with what is written at its site, and it was the
outcome whenever `s` was resolved for its owner. -/
structure IsResolution (ctx : ExtractionContext) (r : Registry) (s : Signature) (m : Member) :
    Prop where
  means : IsMember ctx.scope r.keys (recordsOf r) s m
  found : ∀ {depth before m' after}, before.keys.length = before.graph.length →
    after.keys <+: r.keys → Yields (member ctx (resolve ctx depth) s) before m' after → m' = m

/-- The members `ms` of the record of an interface come from its sequence `xs`. -/
structure IsLinearised (ctx : ExtractionContext) (r : Registry) (d : Interface)
    (xs : List Signature) (slot : Nat) (ms : List Member) : Prop where
  /-- The interface has one descriptor. -/
  taken : ∀ i : Nat, r.keys[i]? = some (.declared d.name) ↔ i = slot
  /-- It is a record with these members. -/
  record : r.graph[slot]? = some ⟨slot + 1, .record d.name d.doc ms⟩
  /-- There is one member for each name, in the order in which the names occur first. -/
  names : ms.map Member.name = (xs.map fun s => s.property.name).eraseDups
  /-- Each member is what the last occurrence of its name resolves to. -/
  last : ∀ m ∈ ms, ∃ s, IsLastOfName xs s ∧ IsResolution ctx r s m

variable {ctx : ExtractionContext} {r : Registry} {s : Signature} {m m' : Member} {d : Interface}
  {keys : List NodeKey} {records records' : Nat → Prop} {xs : List Signature} {ms : List Member}
  {scope : Scope}

/-! ### A member stands for one thing -/

theorem IsBag.unique {bag bag' : Option Nat} (h : IsBag scope keys records s bag)
    (h' : IsBag scope keys records' s bag') : bag = bag' := by
  rcases hparameters : parametersOf s.property with _ | ⟨p, _ | ⟨q, rest⟩⟩ <;>
    simp only [IsBag, hparameters] at h h'
  · rw [h, h']
  · obtain ⟨slot, ⟨t, ht, hslot⟩, -, rfl⟩ := h
    obtain ⟨slot', ⟨t', ht', hslot'⟩, -, rfl⟩ := h'
    obtain rfl := ht.unique ht'
    rw [TypeRef.node.inj (hslot.unique hslot')]

/-- **A member stands for one thing.** -/
theorem IsMember.unique (h : IsMember scope keys records s m)
    (h' : IsMember scope keys records' s m') : m = m' := by
  obtain ⟨t, ht, htype, hnullable⟩ := h.type
  obtain ⟨t', ht', htype', hnullable'⟩ := h'.type
  obtain rfl := ht.unique ht'
  obtain ⟨name, type, doc, optional, nullable, default, arguments⟩ := m
  obtain ⟨name', type', doc', optional', nullable', default', arguments'⟩ := m'
  obtain rfl : name = name' := h.name.trans h'.name.symm
  obtain rfl : type = type' := htype.unique htype'
  obtain rfl : doc = doc' := h.doc.trans h'.doc.symm
  obtain rfl : optional = optional' := h.optional.trans h'.optional.symm
  obtain rfl : nullable = nullable' := hnullable.trans hnullable'.symm
  obtain rfl : default = default' := h.default.trans h'.default.symm
  obtain rfl : arguments = arguments' := h.arguments.unique h'.arguments
  rfl

/-- What a member stands for in the end is what it was resolved to at any moment. -/
theorem IsMember.isResolution (h : IsMember ctx.scope r.keys (recordsOf r) s m) :
    IsResolution ctx r s m := by
  refine ⟨h, fun {depth before m' after} hlength hprefix hyields => ?_⟩
  obtain ⟨-, hm'⟩ := member_keeps (resolve_isResolver isClosed_true depth) (inv_of_length hlength)
    (fun _ _ _ _ => trivial) hyields
  exact (hm'.mono hprefix fun _ hrecord => hrecord).unique h

/-! ### The last member of each name -/

theorem names_of_forall₂ (h : List.Forall₂ (IsMember scope keys records) xs ms) :
    ms.map Member.name = xs.map fun s => s.property.name := by
  induction h with
  | nil => rfl
  | cons hm _ ih => rw [List.map_cons, List.map_cons, hm.name, ih]

/-- The last member of a name is what the last occurrence of the name stands for. -/
theorem exists_isLastOfName (h : List.Forall₂ (IsMember scope keys records) xs ms)
    (hm : m ∈ lastOfEach Member.name ms) :
    ∃ s, IsLastOfName xs s ∧ IsMember scope keys records s m := by
  obtain ⟨before, after, rfl, hafter⟩ := exists_append_of_lastFor? (lastFor?_of_mem_lastOfEach hm)
  obtain ⟨s, ys, hs, hys, hrest⟩ :=
    List.forall₂_cons_right_iff.mp (List.forall₂_drop_append _ _ _ h)
  have hxs : xs = xs.take before.length ++ s :: ys := by rw [← hrest, List.take_append_drop]
  refine ⟨s, ⟨_, ys, hxs, fun s' hs' hname => ?_⟩, hs⟩
  obtain ⟨y, hy, hy'⟩ := exists_of_forall₂ hys hs'
  exact hafter y hy (by rw [hy'.name, hname, hs.name])

/-- The members that steps of a lineage stand for are what its signatures stand for. -/
theorem forall₂_isMember_of_steps
    (h : List.Forall₂ (IsInherited scope keys records) (xs.map .member) ms) :
    List.Forall₂ (IsMember scope keys records) xs ms := by
  rw [List.forall₂_map_left_iff] at h
  refine h.imp fun s m hm => ?_
  obtain ⟨s', hs', hm⟩ := hm
  cases hs'
  exact hm

/-- The steps of a lineage that stand for something are members. -/
theorem areMembers_of_forall₂ {steps : List LineageStep}
    (h : List.Forall₂ (IsInherited scope keys records) steps ms) : AreMembers steps := by
  intro step hstep
  obtain ⟨m, -, s, hs, -⟩ := exists_of_forall₂ h hstep
  exact ⟨s, hs⟩

/-! ### The records of interfaces -/

theorem IsComplete.exists_isLinearised (h : IsComplete ctx r) (hscope : IsUnambiguous ctx.scope)
    (hnodup : r.keys.Nodup) (hd : .interface d ∈ ctx.scope) :
    ∃ xs slot ms, IsSequence ctx.scope d xs ∧ IsLinearised ctx r d xs slot ms := by
  obtain ⟨slot, hslot⟩ := exists_slotIn_of_mem (h.declared hd rfl)
  obtain ⟨shape, hshape, hfills⟩ := h.filled (getElem?_of_slotIn hslot) id
  obtain ⟨hms⟩ := hfills.completesDeclaration hscope hd
  obtain ⟨xs, hxs, hsequence⟩ := exists_isSequence (areMembers_of_forall₂ hms)
  rw [hxs] at hms
  have hmembers := forall₂_isMember_of_steps hms
  refine ⟨xs, slot, _, hsequence, eq_of_slotIn hnodup hslot, hshape, ?_, fun m hm => ?_⟩
  · rw [map_lastOfEach, names_of_forall₂ hmembers]
  · obtain ⟨s, hlast, hm⟩ := exists_isLastOfName hmembers hm
    exact ⟨s, hlast, hm.isResolution⟩

/-! ### What is refused -/

/-- Stripping fails for want of an alternative, or in a circle of aliases. -/
theorem fault_of_strip {owner : String} (seen : List String) (nullable : Bool)
    (raw : Option String) (n : Node) {e : DeclarationError}
    (h : strip scope owner seen nullable raw n = .error e) :
    e.fault = .noAlternative owner ∨ ∃ name, e.fault = .aliasOfItself name := by
  induction seen, nullable, raw, n using strip_induction scope with
  | empty hempty =>
    rw [strip_empty hempty] at h
    cases h
    exact .inl rfl
  | only honly ih =>
    rw [strip_only honly] at h
    exact ih h
  | several hseveral =>
    rw [strip_several hseveral] at h
    cases h
  | keyword =>
    rw [strip_keyword] at h
    split at h
    · cases h
      exact .inl rfl
    · cases h
  | promise ih =>
    rw [strip_promise] at h
    exact ih h
  | undeclared hpromise hd =>
    rw [strip_undeclared hpromise hd] at h
    cases h
  | shape hpromise hd hshape =>
    rw [strip_shape hpromise hd hshape] at h
    cases h
  | again hpromise hd hshape hseen =>
    rw [strip_again hpromise hd hshape hseen] at h
    cases h
    exact .inr ⟨_, rfl⟩
  | followed hpromise hd hshape hseen ih =>
    rw [strip_followed hpromise hd hshape hseen] at h
    exact ih h
  | literal | array | object | function =>
    rw [strip] at h
    cases h

/-- What is refused is a name that is declared twice, or there is a cause. -/
theorem cause_of_extract {unionsAsEnums : Bool} {file : SourceUnit} {e : DeclarationError}
    (h : extract unionsAsEnums file = .error (.declaration e)) :
    (∃ name, e.fault = .duplicate name) ∨ IsUnambiguous file.declarations ∧
      Cause ⟨file.declarations, unionsAsEnums⟩ e := by
  have hfails := fails_of_extract h
  cases hduplicate : duplicate? [] file.declarations with
  | some d =>
    rw [run, hduplicate, fails_failAt] at hfails
    cases hfails
    exact .inl ⟨d.name, rfl⟩
  | none =>
    cases blamed_of_run hduplicate hfails with
    | declaration hcause => exact .inr ⟨(isUnambiguous_of_duplicate?_eq_none hduplicate).1, hcause⟩

/-- The step of a lineage that refuses a file tells of its clauses. -/
theorem Cause.tells {e : DeclarationError} (hscope : IsUnambiguous ctx.scope) (h : Cause ctx e)
    (hfault : (∃ name, e.fault = .inheritsItself name) ∨
      ∃ name base, e.fault = .notABase name base) :
    ∃ step, Tells ctx.scope step ∧ RejectsStep step e.fault := by
  cases h with
  | wrapping hn h =>
    rcases hfault with ⟨name, hfault⟩ | ⟨name, base, hfault⟩ <;>
      rcases fault_of_strip _ _ _ _ h with h | ⟨_, h⟩ <;> cases hfault.symm.trans h
  | type _ h | member _ _ h =>
    rcases hfault with ⟨name, hfault⟩ | ⟨name, base, hfault⟩ <;> rw [hfault] at h <;> cases h
  | value _ _ _ h | mixed _ _ _ h =>
    rcases hfault with ⟨name, hfault⟩ | ⟨name, base, hfault⟩ <;> cases hfault.symm.trans h
  | base hkey hstep h =>
    refine ⟨_, ?_, h⟩
    cases hkey with
    | interface hd => exact tells_of_mem_lineage (hscope _ hd) _ hstep
    | objectAlias | object =>
      obtain ⟨s, -, rfl⟩ := List.mem_map.mp hstep
      trivial

/-- **Inheritance.** When extraction succeeds, the record of each interface comes from the sequence
of all that the interface extends and its own members; no interface reaches itself, and all that is
extended can be. When it fails because an interface inherits from itself, or extends what cannot be
extended, this is so by the clauses alone. -/
theorem inheritance_linearises (unionsAsEnums : Bool) (file : SourceUnit) :
    (∀ g, extract unionsAsEnums file = .ok g →
      ∃ r, Yields (run unionsAsEnums file) Registry.empty ⟨⟩ r ∧ r.graph = g ∧
        ∀ d, .interface d ∈ file.declarations →
          (∃ xs slot ms, IsSequence file.declarations d xs ∧
            IsLinearised ⟨file.declarations, unionsAsEnums⟩ r d xs slot ms) ∧
          ¬Relation.TransGen (Extends file.declarations) d d ∧
          ∀ base ∈ d.bases, IsBase file.declarations base) ∧
    ∀ e, extract unionsAsEnums file = .error (.declaration e) →
      (∀ name, e.fault = .inheritsItself name → ∃ d, .interface d ∈ file.declarations ∧
        d.name = name ∧ Relation.TransGen (Extends file.declarations) d d) ∧
      ∀ name base, e.fault = .notABase name base → ∃ d, .interface d ∈ file.declarations ∧
        d.name = name ∧ base ∈ d.bases ∧ ¬IsBase file.declarations base := by
  refine ⟨fun g h => ?_, fun e h => ⟨fun name hfault => ?_, fun name base hfault => ?_⟩⟩
  · obtain ⟨r, hrun, rfl⟩ := yields_of_extract h
    obtain ⟨hscope, hcomplete, hgrows⟩ := isComplete_of_run hrun
    refine ⟨r, hrun, rfl, fun d hd => ?_⟩
    obtain ⟨xs, slot, ms, hsequence, hlinearised⟩ :=
      hcomplete.exists_isLinearised hscope (hgrows.nodup List.nodup_nil) hd
    exact ⟨⟨xs, slot, ms, hsequence, hlinearised⟩, hsequence.not_extends_self,
      fun base hbase => hsequence.isBase hbase⟩
  · rcases cause_of_extract h with ⟨name', hduplicate⟩ | ⟨hscope, hcause⟩
    · cases hfault.symm.trans hduplicate
    · obtain ⟨step, htells, hrejects⟩ := hcause.tells hscope (.inl ⟨name, hfault⟩)
      rw [hfault] at hrejects
      cases hrejects
      exact ⟨_, htells.1, rfl, htells.2⟩
  · rcases cause_of_extract h with ⟨name', hduplicate⟩ | ⟨hscope, hcause⟩
    · cases hfault.symm.trans hduplicate
    · obtain ⟨step, htells, hrejects⟩ := hcause.tells hscope (.inr ⟨name, base, hfault⟩)
      rw [hfault] at hrejects
      cases hrejects
      exact ⟨_, htells.1, rfl, htells.2⟩

/-- A base that mentions an interface which reaches it on two ways, and an alias as a further
base. -/
def diamondFile : SourceUnit where
  imports := []
  declarations := [
    .interface ⟨"Base", [], [
      ⟨"id", .keyword .string, false, false, none, ⟨2, 3⟩⟩,
      ⟨"sub", .reference "Sub" [] ⟨3, 8⟩, false, false, none, ⟨3, 3⟩⟩], none, ⟨1, 11⟩⟩,
    .typeAlias ⟨"Stamp", .object [
      ⟨"at", .reference "Date" [] ⟨6, 7⟩, false, false, none, ⟨6, 3⟩⟩,
      ⟨"id", .keyword .number, false, false, none, ⟨7, 3⟩⟩] ⟨5, 14⟩, none, ⟨5, 6⟩⟩,
    .interface ⟨"Left", ["Base"], [
      ⟨"x", .keyword .string, false, false, none, ⟨10, 3⟩⟩], none, ⟨9, 11⟩⟩,
    .interface ⟨"Right", ["Base"], [
      ⟨"x", .keyword .number, false, false, none, ⟨13, 3⟩⟩], none, ⟨12, 11⟩⟩,
    .interface ⟨"Sub", ["Left", "Right", "Stamp"], [
      ⟨"sub", .reference "Base" [] ⟨16, 8⟩, false, false, none, ⟨16, 3⟩⟩], none, ⟨15, 11⟩⟩]

/-- The table of the file. -/
def diamondTable : Graph := [
  ⟨1, .record "Base" none [
    ⟨"id", .primitive ⟨"string", "string", none⟩, none, false, false, none, none⟩,
    ⟨"sub", .node 1, none, false, false, none, none⟩]⟩,
  ⟨2, .record "Sub" none [
    ⟨"id", .primitive ⟨"number", "number", none⟩, none, false, false, none, none⟩,
    ⟨"sub", .node 0, none, false, false, none, none⟩,
    ⟨"x", .primitive ⟨"number", "number", none⟩, none, false, false, none, none⟩,
    ⟨"at", .date, none, false, false, none, none⟩]⟩,
  ⟨3, .record "Stamp" none [
    ⟨"at", .date, none, false, false, none, none⟩,
    ⟨"id", .primitive ⟨"number", "number", none⟩, none, false, false, none, none⟩]⟩,
  ⟨4, .record "Left" none [
    ⟨"id", .primitive ⟨"string", "string", none⟩, none, false, false, none, none⟩,
    ⟨"sub", .node 1, none, false, false, none, none⟩,
    ⟨"x", .primitive ⟨"string", "string", none⟩, none, false, false, none, none⟩]⟩,
  ⟨5, .record "Right" none [
    ⟨"id", .primitive ⟨"string", "string", none⟩, none, false, false, none, none⟩,
    ⟨"sub", .node 1, none, false, false, none, none⟩,
    ⟨"x", .primitive ⟨"number", "number", none⟩, none, false, false, none, none⟩]⟩]

/-- Two interfaces that extend each other. -/
def circleFile : SourceUnit where
  imports := []
  declarations := [
    .interface ⟨"A", ["B"], [], none, ⟨1, 11⟩⟩,
    .interface ⟨"B", ["A"], [], none, ⟨2, 11⟩⟩]

/-- The interface of the file is a record though its base mentions it, and two interfaces that
extend each other are refused. -/
theorem inheritance_linearises_diamondFile :
    extract false diamondFile = .ok diamondTable ∧
      (∀ d, .interface d ∈ diamondFile.declarations →
        ¬Relation.TransGen (Extends diamondFile.declarations) d d) ∧
      extract false circleFile = .error (.declaration ⟨.inheritsItself "A", "A", some ⟨1, 11⟩⟩) ∧
      ∃ d, .interface d ∈ circleFile.declarations ∧ d.name = "A" ∧
        Relation.TransGen (Extends circleFile.declarations) d d := by
  have hdiamond : extract false diamondFile = .ok diamondTable := by cbv
  have hcircle : extract false circleFile =
    .error (.declaration ⟨.inheritsItself "A", "A", some ⟨1, 11⟩⟩) := by cbv
  obtain ⟨r, -, -, hall⟩ := (inheritance_linearises false diamondFile).1 _ hdiamond
  refine ⟨hdiamond, fun d hd => (hall d hd).2.1, hcircle, ?_⟩
  exact ((inheritance_linearises false circleFile).2 _ hcircle).1 "A" rfl

end Extraction

end DeclaredSchema
