import DeclaredSchema.Proofs.Extraction.Moves
import DeclaredSchema.Proofs.Failure

/-!
# Why members cannot be resolved

An extraction that fails blames a part of the file, and what it blames is wrong wherever the
extraction has come from: whether a type is rejected does not depend on the slots that are taken
already. Only the check of a default value looks at a table that is not complete yet, and of it the
cause says no more than that the member has a default.

An extraction that ends for want of depth has gone down through nested types, and each slot that it
has taken on the way was new.

## Main definitions

* `Needed`, `RecordOf` — the types that are stripped, and the members that are resolved
* `Rejects`, `RejectsMember`, `RejectsStep`, `Cause` — what is wrong with a file
* `Descent` — a way down through nested types
* `Justifies`, `IsBlamed` — failures that have a cause

## Main results

* `member_blamed`, `members_blamed`, `foldLineage_blamed` — failures to resolve members have causes
-/

namespace DeclaredSchema

namespace Extraction

/-! ### What is wrong with a file -/

/-- The types that are stripped: those within declarations, and those within resolved types. -/
inductive Needed (ctx : ExtractionContext) : Node → Prop
  | declared {d : Declaration} {n : Node} (hd : d ∈ ctx.scope) (hn : n ∈ declarationNeeds ctx d) :
      Needed ctx n
  | nested {m n : Node} (hm : Resolved ctx m) (hn : n ∈ needs ctx m) : Needed ctx n

/-- The key stands for a record, whose members are written in these steps. -/
inductive RecordOf (ctx : ExtractionContext) : NodeKey → List LineageStep → Prop
  | interface {d : Interface} (hd : .interface d ∈ ctx.scope) :
      RecordOf ctx (.declared d.name) (lineage ctx.scope d)
  | objectAlias {d : Alias} {site : Site} {ps : List (Property TypeExpr)} {position : Position}
      (hd : .typeAlias d ∈ ctx.scope) (hshape : namesShape ctx.scope d = true)
      (hobject : alternatives ctx.scope d.node = [⟨site, .object ps position⟩]) :
      RecordOf ctx (.declared d.name) (writtenMembers d.name site ps)
  | object {site : Site} {ps : List (Property TypeExpr)} {position : Position} {owner : String}
      (hn : Resolved ctx ⟨site, .object ps position⟩) :
      RecordOf ctx (.inline site) (writtenMembers owner site ps)

/-- The stripped type has no meaning. -/
inductive Rejects (ctx : ExtractionContext) : Node → DeclarationFault → Prop
  | keyword {s : Site} {word : TypeKeyword} {owner : String}
      (h : word ≠ .string ∧ word ≠ .number ∧ word ≠ .boolean) :
      Rejects ctx ⟨s, .keyword word⟩ (.unsupportedKeyword word.text owner)
  | function {s : Site} {parameters : List (Parameter TypeExpr)} {result : TypeExpr}
      {owner : String} : Rejects ctx ⟨s, .function parameters result⟩ (.functionType owner)
  | arrayArguments {s : Site} {name : String} {arguments : List TypeExpr} {position : Position}
      {owner : String} (hfind : ctx.scope.find? name = none)
      (harguments : ∀ element, arguments ≠ [element]) (hname : arrayNames.contains name = true) :
      Rejects ctx ⟨s, .reference name arguments position⟩ (.arrayArguments name owner)
  | misplacedDefault {s : Site} {arguments : List TypeExpr} {position : Position}
      {owner : String} (hfind : ctx.scope.find? defaultName = none) :
      Rejects ctx ⟨s, .reference defaultName arguments position⟩ (.misplacedDefault owner)
  | unknownGeneric {s : Site} {name : String} {arguments : List TypeExpr} {position : Position}
      {owner : String} (hfind : ctx.scope.find? name = none)
      (hname : arrayNames.contains name = false) (harguments : arguments ≠ []) :
      Rejects ctx ⟨s, .reference name arguments position⟩ (.unknownGeneric name owner)
  | notGeneric {s : Site} {name : String} {arguments : List TypeExpr} {position : Position}
      {owner : String} {d : Declaration} (hfind : ctx.scope.find? name = some d)
      (harguments : arguments ≠ []) :
      Rejects ctx ⟨s, .reference name arguments position⟩ (.notGeneric name owner)
  | unresolvedAlias {s : Site} {name : String} {position : Position} {owner : String} {d : Alias}
      (hfind : ctx.scope.find? name = some (.typeAlias d))
      (hshape : namesShape ctx.scope d = false) :
      Rejects ctx ⟨s, .reference name [] position⟩ (.unresolvedAlias name owner)

/-- The member has no meaning, besides that of its types. -/
inductive RejectsMember (ctx : ExtractionContext) (s : Signature) : DeclarationFault → Prop
  | manyParameters (h : 2 ≤ (parametersOf s.property).length) :
      RejectsMember ctx s (.manyParameters s.label (parametersOf s.property).length)
  | parameterNotObject {p : Parameter TypeExpr} {t : Stripped}
      (hparameters : parametersOf s.property = [p])
      (ht : Strips ctx.scope ⟨s.site.child 1, p.type⟩ t)
      (h : ∀ key steps, keyOf? ctx.scope t.node = some key → ¬RecordOf ctx key steps) :
      RejectsMember ctx s (.parameterNotObject p.name s.label)
  | malformedDefault {arguments : List TypeExpr} {position : Position}
      (h : (resultOf s).expr = .reference defaultName arguments position)
      (harguments : ∀ type value, arguments ≠ [type, .literal value]) :
      RejectsMember ctx s (.malformedDefault s.label)
  | defaultMismatch {value : Literal} {type : String} (h : defaultOf s = some value) :
      RejectsMember ctx s (.defaultMismatch value s.label type)

/-- The step of a lineage is no member. -/
inductive RejectsStep : LineageStep → DeclarationFault → Prop
  | inheritsItself {d : Interface} : RejectsStep (.inheritsItself d) (.inheritsItself d.name)
  | notABase {d : Interface} {base : String} :
      RejectsStep (.notABase d base) (.notABase d.name base)

/-- What is wrong with a file whose names are declared once. -/
inductive Cause (ctx : ExtractionContext) : DeclarationError → Prop
  | wrapping {n : Node} {owner : String} {e : DeclarationError} (hn : Needed ctx n)
      (h : strip ctx.scope owner [] false none n = .error e) : Cause ctx e
  | type {n : Node} {e : DeclarationError} (hn : Resolved ctx n) (h : Rejects ctx n e.fault) :
      Cause ctx e
  | member {key : NodeKey} {steps : List LineageStep} {s : Signature} {e : DeclarationError}
      (hkey : RecordOf ctx key steps) (hs : .member s ∈ steps) (h : RejectsMember ctx s e.fault) :
      Cause ctx e
  | base {key : NodeKey} {steps : List LineageStep} {step : LineageStep} {e : DeclarationError}
      (hkey : RecordOf ctx key steps) (hstep : step ∈ steps) (h : RejectsStep step e.fault) :
      Cause ctx e
  | value {d : Enumeration} {m : EnumEntry} {e : DeclarationError}
      (hd : .enumeration d ∈ ctx.scope) (hm : m ∈ d.members)
      (hvalue : ∀ text, m.value ≠ some (.str text)) (h : e.fault = .enumValue d.name m.name) :
      Cause ctx e
  | mixed {d : Alias} {e : DeclarationError} (hd : .typeAlias d ∈ ctx.scope)
      (hshape : namesShape ctx.scope d = true)
      (hmixed : isMixed ctx (alternatives ctx.scope d.node) = true)
      (h : e.fault = .mixedLiterals d.name) : Cause ctx e

/-- A way of the given length down from a resolved type, on which the keys that are met are new. -/
inductive Descent (ctx : ExtractionContext) : List NodeKey → Nat → Node → Prop
  | stop {seen : List NodeKey} {n : Node} : Descent ctx seen 0 n
  | element {seen : List NodeKey} {depth : Nat} {n m : Node} {t : Stripped}
      (hkey : keyOf? ctx.scope n = none) (hm : m ∈ needs ctx n) (ht : Strips ctx.scope m t)
      (h : Descent ctx seen depth t.node) : Descent ctx seen (depth + 1) n
  | slot {seen : List NodeKey} {depth : Nat} {n m : Node} {key : NodeKey}
      (hkey : keyOf? ctx.scope n = some key) (hmay : MayTake ctx (Resolved ctx) key)
      (hnew : key ∉ seen) (hm : Resolved ctx m) (h : Descent ctx (key :: seen) depth m) :
      Descent ctx seen (depth + 1) n

/-- There is a way of the given length down from some resolved type. -/
def Deep (ctx : ExtractionContext) (seen : List NodeKey) (depth : Nat) : Prop :=
  ∃ n, Resolved ctx n ∧ Descent ctx seen depth n

/-- A failure for which there is a cause, or a failure for want of depth, of which `E` is known. -/
inductive Justifies (ctx : ExtractionContext) (E : Prop) : ExtractionError → Prop
  | declaration {e : DeclarationError} (h : Cause ctx e) : Justifies ctx E (.declaration e)
  | endless (h : E) : Justifies ctx E .endless

variable {ctx : ExtractionContext} {U : Nat → Prop} {r r' : Registry} {n m : Node} {s : Signature}
  {t : Stripped} {owner : String} {u : PUnit} {key : NodeKey} {shape : Shape} {slot : Nat}
  {seen : List NodeKey} {depth : Nat} {e : ExtractionError} {steps : List LineageStep}
  {step : LineageStep} {E E' : Prop}

theorem Justifies.imp (h : Justifies ctx E e) (himp : E → E') : Justifies ctx E' e := by
  cases h with
  | declaration h => exact .declaration h
  | endless h => exact .endless (himp h)

theorem Needed.resolved (h : Needed ctx n) (ht : Strips ctx.scope n t) : Resolved ctx t.node := by
  cases h with
  | declared hd hn => exact .declared hd hn ht
  | nested hm hn => exact .nested hm hn ht

theorem member_mem_writtenMembers {name : String} {site : Site} {ps : List (Property TypeExpr)} :
    .member s ∈ writtenMembers name site ps ↔ s ∈ site.signatures name ps := by
  simp [writtenMembers]

/-- The types of the members of a record are stripped. -/
theorem RecordOf.needed (h : RecordOf ctx key steps) (hs : .member s ∈ steps) (hn : n ∈ parts s) :
    Needed ctx n := by
  cases h with
  | interface hd => exact .declared hd (List.mem_flatMap.mpr ⟨_, hs, hn⟩)
  | objectAlias hd hshape hobject =>
    refine .declared hd ?_
    rw [declarationNeeds_object hshape hobject]
    exact List.mem_flatMap.mpr ⟨s, member_mem_writtenMembers.mp hs, hn⟩
  | @object site ps position owner hasked =>
    have hmem : n ∈ (site.signatures owner ps).flatMap parts :=
      List.mem_flatMap.mpr ⟨s, member_mem_writtenMembers.mp hs, hn⟩
    rw [flatMap_parts_signatures] at hmem
    exact .nested hasked hmem

/-! ### What is known while an extraction goes on -/

/-- What holds of a table while the slots of `U` are underway. Keys that stand for records have
records in their slots from the first moment. -/
structure Underway (ctx : ExtractionContext) (U : Nat → Prop) (r : Registry) : Prop where
  inv : Inv ctx (Resolved ctx) U r
  taken : ∀ {slot}, U slot → slot < r.keys.length
  records : ∀ {slot key steps}, r.keys[slot]? = some key → RecordOf ctx key steps → recordsOf r slot

/-- What completes the slot of a record is a record, whose members are what the steps stand for. -/
theorem Fills.of_recordOf {keys : List NodeKey} {records : Nat → Prop}
    (hscope : IsUnambiguous ctx.scope) (h : Fills ctx keys records (Resolved ctx) key shape)
    (hkey : RecordOf ctx key steps) : shape.members?.isSome = true ∧
      ∀ step ∈ steps, ∃ m, IsInherited ctx.scope keys records step m := by
  cases hkey with
  | interface hd =>
    cases h.completesDeclaration hscope hd with
    | interface hall =>
      refine ⟨rfl, fun step hstep => ?_⟩
      obtain ⟨m, -, hm⟩ := exists_of_forall₂ hall hstep
      exact ⟨m, hm⟩
  | objectAlias hd hshape hobject =>
    obtain ⟨ms, hall, rfl⟩ := (h.completesDeclaration hscope hd).of_object hobject
    refine ⟨rfl, fun step hstep => ?_⟩
    obtain ⟨s, hs, rfl⟩ := List.mem_map.mp hstep
    obtain ⟨m, -, hm⟩ := exists_of_forall₂ hall hs
    exact ⟨m, s, rfl, hm⟩
  | object hn =>
    cases h.completesInline hscope (hn.isAt hscope) with
    | object hall =>
      refine ⟨rfl, fun step hstep => ?_⟩
      -- the owner of a signature is a matter of messages only
      obtain ⟨s, hs, rfl⟩ := List.mem_map.mp hstep
      obtain ⟨⟨p, i⟩, hp, rfl⟩ := List.mem_map.mp hs
      obtain ⟨m, -, hm⟩ := exists_of_forall₂ hall (List.mem_map.mpr ⟨(p, i), hp, rfl⟩)
      exact ⟨m, _, rfl, hm.name, hm.doc, hm.optional, hm.type, hm.default, hm.arguments⟩

namespace Underway

theorem empty : Underway ctx (fun _ => False) Registry.empty :=
  ⟨inv_empty, fun h => h.elim, fun h => by cases h⟩

/-- A step that succeeds only adds slots that are complete. -/
theorem keeps (h : Underway ctx U r) (hscope : IsUnambiguous ctx.scope)
    (hkeeps : Keeps ctx (Resolved ctx) U r r') : Underway ctx U r' where
  inv := hkeeps.inv
  taken hslot := Nat.lt_of_lt_of_le (h.taken hslot) hkeeps.grows.keys.length_le
  records {slot key steps} hkey hrecord := by
    rcases Nat.lt_or_ge slot r.keys.length with hlt | hge
    · have hold : r.keys[slot]? = some key := by
        obtain ⟨more, hmore⟩ := hkeeps.grows.keys
        rwa [← hmore, List.getElem?_append_left hlt] at hkey
      exact hkeeps.grows.records (h.records hold hrecord)
    · obtain ⟨shape, hshape, hfills⟩ :=
        hkeeps.inv.filled hkey fun hunder => absurd (h.taken hunder) (Nat.not_lt.mpr hge)
      exact recordsOf_iff.mpr ⟨_, hshape, (hfills.of_recordOf hscope hrecord).1⟩

/-- A new slot is underway; if its key stands for a record, it starts with one. -/
theorem add (h : Underway ctx U r) (hfree : slotIn r.keys key = none)
    (hmay : MayTake ctx (Resolved ctx) key)
    (hshape : ∀ steps, RecordOf ctx key steps → shape.members?.isSome = true) :
    Underway ctx (also U r.graph.length) (r.add key shape) where
  inv := h.inv.add hfree hmay
  taken {slot} hslot := by
    rw [Registry.keys_add, List.length_append, List.length_singleton]
    rcases hslot with hslot | rfl
    · exact Nat.lt_succ_of_lt (h.taken hslot)
    · rw [h.inv.length]
      exact Nat.lt_succ_self _
  records {slot key' steps} hkey hrecord := by
    rcases Nat.lt_or_ge slot r.keys.length with hlt | hge
    · rw [Registry.keys_add, List.getElem?_append_left hlt] at hkey
      exact (Grows.add hfree hmay).records (h.records hkey hrecord)
    · obtain ⟨rfl, rfl⟩ := h.inv.eq_of_getElem?_add hge hkey
      exact recordsOf_iff.mpr ⟨_, getElem?_graph_add, hshape steps hrecord⟩

theorem change (h : Underway ctx U r) (hslot : U slot) {f : Shape → Shape} (hf : KeepsRecords f) :
    Underway ctx U (r.update slot f) where
  inv := h.inv.change hslot hf
  taken := h.taken
  records hkey hrecord := recordsOf_update hf (h.records hkey hrecord)

end Underway

/-- Every failing resolution has a cause, or a way down that is as long as is allowed. -/
def IsBlamed (ctx : ExtractionContext) (rec : Resolver) (depth : Nat) : Prop :=
  ∀ {n raw owner U r e seen}, Underway ctx U r → seen ⊆ r.keys → Resolved ctx n →
    Fails (rec n raw owner) r e → Justifies ctx (Descent ctx seen depth n) e

/-! ### Single steps -/

@[simp] theorem fails_fail {α : Type} {x : DeclarationError} :
    Fails (fail x : Extract α) r e ↔ e = .declaration x :=
  fails_throw

@[simp] theorem fails_failAt {α : Type} {position : Position} {declaration : String}
    {fault : DeclarationFault} : Fails (failAt position declaration fault : Extract α) r e ↔
      e = .declaration ⟨fault, declaration, some position⟩ :=
  fails_throw

@[simp] theorem fails_failFor {α : Type} {declaration : String} {fault : DeclarationFault} :
    Fails (failFor declaration fault : Extract α) r e ↔
      e = .declaration ⟨fault, declaration, none⟩ :=
  fails_throw

@[simp] theorem fails_slotOf : ¬Fails (slotOf key) r e := by
  rw [slotOf, fails_get_bind]
  exact fails_pure

@[simp] theorem fails_register : ¬Fails (register key shape) r e := by
  simp [register]

@[simp] theorem fails_change {f : Shape → Shape} : ¬Fails (change slot f) r e :=
  fails_modify

theorem stripped_blamed (hn : Needed ctx n) (h : Fails (stripped ctx owner n) r e) :
    Justifies ctx E e := by
  unfold stripped at h
  split at h
  · exact absurd h fails_pure
  · next x hstrip =>
    rw [fails_fail.mp h]
    exact .declaration (.wrapping hn hstrip)

/-- A default annotation is malformed if it cannot be split. -/
theorem fails_splitDefault (h : Fails (splitDefault s n) r e) : ∃ arguments position,
    n.expr = .reference defaultName arguments position ∧
      (∀ type value, arguments ≠ [type, .literal value]) ∧
      e = .declaration ⟨.malformedDefault s.label, s.label, some s.property.position⟩ := by
  unfold splitDefault at h
  split at h
  · next name arguments position he =>
    rw [fails_ite] at h
    rcases h with ⟨rfl, h⟩ | ⟨-, h⟩
    · split at h
      · exact absurd h fails_pure
      · next hother => exact ⟨_, _, he, fun type value heq => hother type value heq, fails_failAt.mp h⟩
    · exact absurd h fails_pure
  · exact absurd h fails_pure

/-! ### Members -/

section Step

variable {rec : Resolver} (hscope : IsUnambiguous ctx.scope)
  (hrec : IsResolver ctx (Resolved ctx) rec) (hblamed : IsBlamed ctx rec depth)

include hblamed in
theorem alternative_blamed (hunder : Underway ctx U r) (hseen : seen ⊆ r.keys) (hn : Needed ctx n)
    (h : Fails (alternative ctx rec owner n) r e) :
    Justifies ctx (∃ t, Strips ctx.scope n t ∧ Descent ctx seen depth t.node) e := by
  rw [alternative, fails_bind] at h
  rcases h with h | ⟨inner, a, hstrip, h⟩
  · exact stripped_blamed hn h
  · obtain ⟨hstrips, rfl⟩ := strips_of_yields hstrip
    exact (hblamed hunder hseen (hn.resolved hstrips) h).imp fun h => ⟨inner, hstrips, h⟩

/-- A type that stands for the slot of a record is found where a record is to be. -/
theorem isRecord_of_denotes {raw : Option String} {type : TypeRef}
    (hunder : Underway ctx U r) (h : Denotes ctx.scope r.keys n raw type)
    (hkey : keyOf? ctx.scope n = some key) (hrecord : RecordOf ctx key steps) :
    ∃ slot, type = .node slot ∧ r.graph.isRecord type = true := by
  obtain ⟨slot, rfl, hslot⟩ := h.slot_of_keyOf? hkey
  exact ⟨slot, rfl, hunder.records (getElem?_of_slotIn hslot) hrecord⟩

include hscope hrec hblamed in
theorem argumentBag_blamed (hunder : Underway ctx U r) (hseen : seen ⊆ r.keys)
    (hkey : RecordOf ctx key steps) (hs : .member s ∈ steps)
    (h : Fails (argumentBag ctx rec s (parametersOf s.property)) r e) :
    Justifies ctx (Deep ctx seen depth) e := by
  have hreject : ∀ {fault position}, RejectsMember ctx s fault →
      Justifies ctx (Deep ctx seen depth) (.declaration ⟨fault, s.label, position⟩) :=
    fun hreject => .declaration (.member hkey hs hreject)
  match hparameters : parametersOf s.property with
  | [] =>
    rw [hparameters] at h
    exact absurd h fails_pure
  | [p] =>
    have hn : Needed ctx ⟨s.site.child 1, p.type⟩ := by
      refine hkey.needed hs ?_
      rw [parts, hparameters]
      exact List.mem_cons_self ..
    rw [hparameters, argumentBag, fails_bind] at h
    rcases h with h | ⟨inner, a, hstrip, h⟩
    · exact stripped_blamed hn h
    · obtain ⟨hstrips, rfl⟩ := strips_of_yields hstrip
      rw [fails_bind] at h
      rcases h with h | ⟨type, b, htype, h⟩
      · have hresolved := hn.resolved hstrips
        exact (hblamed hunder hseen hresolved h).imp fun h => ⟨_, hresolved, h⟩
      · obtain ⟨hkeeps, hdenotes⟩ := hrec hunder.inv (hn.resolved hstrips) htype
        have hnone : b.graph.isRecord type = false → RejectsMember ctx s
            (.parameterNotObject p.name s.label) := by
          refine fun hno => .parameterNotObject hparameters hstrips fun key' steps' hkey' hrecord => ?_
          obtain ⟨slot, -, hyes⟩ :=
            isRecord_of_denotes (hunder.keeps hscope hkeeps) hdenotes hkey' hrecord
          rw [hno] at hyes
          cases hyes
        rw [fails_get_bind] at h
        split at h
        · rw [fails_ite] at h
          rcases h with ⟨-, h⟩ | ⟨hno, h⟩
          · exact absurd h fails_pure
          · rw [fails_failAt.mp h]
            exact hreject (hnone (Bool.eq_false_iff.mpr hno))
        · next hother =>
          rw [fails_failAt.mp h]
          refine hreject (hnone ?_)
          cases type with
          | node slot => exact absurd rfl (hother slot)
          | primitive | array | untypedArray | date | foreign => rfl
  | p :: q :: more =>
    rw [hparameters] at h
    rw [fails_failAt.mp h, ← hparameters]
    exact hreject (.manyParameters (hparameters ▸ Nat.le_add_left _ _))

include hscope hrec hblamed in
theorem splitArguments_blamed (hunder : Underway ctx U r) (hseen : seen ⊆ r.keys)
    (hkey : RecordOf ctx key steps) (hs : .member s ∈ steps)
    (h : Fails (splitArguments ctx rec s) r e) : Justifies ctx (Deep ctx seen depth) e := by
  unfold splitArguments at h
  split at h
  · next parameters result htype =>
    simp only [fails_bind, fails_pure, exists_false, and_false, or_false] at h
    have hbag : Fails (argumentBag ctx rec s (parametersOf s.property)) r e := by
      rwa [parametersOf, htype]
    exact argumentBag_blamed hscope hrec hblamed hunder hseen hkey hs hbag
  · exact absurd h fails_pure

include hscope hrec hblamed in
/-- **Members** that are not resolved are rejected, or one of their types is. -/
theorem member_blamed (hunder : Underway ctx U r) (hseen : seen ⊆ r.keys)
    (hkey : RecordOf ctx key steps) (hs : .member s ∈ steps) (h : Fails (member ctx rec s) r e) :
    Justifies ctx (Deep ctx seen depth) e := by
  unfold member at h
  rcases fails_bind.mp h with hfails | ⟨⟨bag, result⟩, a, hbag, hrest⟩
  · exact splitArguments_blamed hscope hrec hblamed hunder hseen hkey hs hfails
  obtain ⟨hkeeps, -, rfl⟩ := splitArguments_keeps hrec hunder.inv
    (fun n hn t ht => (hkey.needed hs hn).resolved ht) hbag
  rcases fails_bind.mp hrest with hfails | ⟨⟨type, default⟩, b, hdefault, hrest⟩
  · obtain ⟨arguments, position, hexpr, harguments, rfl⟩ := fails_splitDefault hfails
    exact .declaration (.member hkey hs (.malformedDefault hexpr harguments))
  obtain ⟨hsplit, hsame⟩ := yields_splitDefault hdefault
  have htype : typeOf s = type := congrArg Prod.fst hsplit.symm
  have hn : Needed ctx type := hkey.needed hs (htype ▸ typeOf_mem_parts)
  rcases fails_bind.mp hrest with hfails | ⟨inner, c, hstrip, hrest⟩
  · exact stripped_blamed hn hfails
  obtain ⟨hstrips, hsame'⟩ := strips_of_yields hstrip
  have hresolved := hn.resolved hstrips
  have hunder' := hunder.keeps hscope hkeeps
  rw [hsame', hsame] at hrest
  rcases fails_bind.mp hrest with hfails | ⟨t, d, ht, hrest⟩
  · exact (hblamed hunder' (List.Subset.trans hseen hkeeps.grows.keys.subset) hresolved hfails).imp
      fun h => ⟨_, hresolved, h⟩
  rw [fails_get_bind] at hrest
  split at hrest
  · simp only [fails_ite, fails_bind, fails_failAt, fails_pure, exists_false, and_false,
      or_false] at hrest
    obtain ⟨-, rfl⟩ := hrest
    exact .declaration (.member hkey hs (.defaultMismatch (congrArg Prod.snd hsplit.symm)))
  · simp at hrest

include hscope hrec hblamed in
theorem members_blamed {ss : List Signature} (hunder : Underway ctx U r) (hseen : seen ⊆ r.keys)
    (hkey : RecordOf ctx key steps) (hss : ∀ s ∈ ss, .member s ∈ steps)
    (h : Fails (members ctx rec ss) r e) : Justifies ctx (Deep ctx seen depth) e := by
  obtain ⟨s, hs, a, ⟨hunder', hseen'⟩, hfails⟩ :=
    Fails.mapM (fun r => Underway ctx U r ∧ seen ⊆ r.keys)
      (fun s hs a m b hgood hm => by
        obtain ⟨hkeeps, -⟩ := member_keeps hrec hgood.1.inv
          (fun n hn t ht => (hkey.needed (hss s hs) hn).resolved ht) hm
        exact ⟨hgood.1.keeps hscope hkeeps, List.Subset.trans hgood.2 hkeeps.grows.keys.subset⟩)
      h ⟨hunder, hseen⟩
  exact member_blamed hscope hrec hblamed hunder' hseen' hkey (hss s hs) hfails

include hscope hrec hblamed in
theorem inherit_blamed {ms : List Member} (hunder : Underway ctx U r) (hseen : seen ⊆ r.keys)
    (hkey : RecordOf ctx key steps) (hstep : step ∈ steps)
    (h : Fails (inherit ctx rec ms step) r e) : Justifies ctx (Deep ctx seen depth) e := by
  cases step with
  | member s =>
    simp only [inherit, fails_bind, fails_pure, exists_false, and_false, or_false] at h
    exact member_blamed hscope hrec hblamed hunder hseen hkey hstep h
  | inheritsItself d =>
    rw [fails_failAt.mp h]
    exact .declaration (.base hkey hstep .inheritsItself)
  | notABase d base =>
    rw [fails_failAt.mp h]
    exact .declaration (.base hkey hstep .notABase)

include hscope hrec hblamed in
theorem foldLineage_blamed {d : Interface} (hunder : Underway ctx U r) (hseen : seen ⊆ r.keys)
    (hd : .interface d ∈ ctx.scope) (h : Fails (foldLineage ctx.scope (inherit ctx rec) d []) r e) :
    Justifies ctx (Deep ctx seen depth) e := by
  have hkey : RecordOf ctx (.declared d.name) (lineage ctx.scope d) := .interface hd
  rw [foldLineage_eq_foldlM] at h
  obtain ⟨step, hstep, ms, a, ⟨hunder', hseen'⟩, hfails⟩ :=
    Fails.foldlM (fun r => Underway ctx U r ∧ seen ⊆ r.keys)
      (fun step hstep a ms ms' b hgood hm => by
        have hadmits : ∀ n ∈ stepParts step, Admits ctx (Resolved ctx) n :=
          fun n hn t ht => .declared hd (List.mem_flatMap.mpr ⟨step, hstep, hn⟩) ht
        obtain ⟨hkeeps, -⟩ := inherit_keeps hrec hgood.1.inv hadmits hm
        exact ⟨hgood.1.keeps hscope hkeeps, List.Subset.trans hgood.2 hkeeps.grows.keys.subset⟩)
      h ⟨hunder, hseen⟩
  exact inherit_blamed hscope hrec hblamed hunder' hseen' hkey hstep hfails

end Step

end Extraction

end DeclaredSchema
