import DeclaredSchema.Proofs.Declaration.Flattening
import DeclaredSchema.Proofs.Extraction.Acceptance

/-!
# Unions of the table

A union of the table is made from the body of an alias or from an inline union, and its alternatives
are what the alternatives of that type stand for, in order.

Looking behind a type leads to one end, since there is one step from a promise and one from the name
of an alias. Where there is no union on the way, the end is an object type, a name that is no alias,
or a type that has no slot, and what the type stands for can be told from it. In particular that is
no union.

## Main definitions

* `IsUnionOf` — the type that a union of the table is made from
* `IsObjectType`, `IsTextType` — types with an object type or a text behind them
* `ComesTo` — what the end behind a type stands for

## Main results

* `Fills.of_union` — the alternatives of a union of the table
* `exists_comesTo` — what an alternative that is no union stands for
-/

namespace DeclaredSchema

namespace Extraction

/-- The type that the union in the slot of a key is made from, with the name and the documentation
of the union. -/
inductive IsUnionOf (ctx : ExtractionContext) :
    NodeKey → Option String → Option String → Node → Prop
  | declared {d : Alias} (hd : .typeAlias d ∈ ctx.scope) (hunion : d.type.isUnion = true) :
      IsUnionOf ctx (.declared d.name) (some d.name) d.doc d.node
  | inline {s : Site} {es : List TypeExpr} (hn : Resolved ctx ⟨s, .union es⟩) :
      IsUnionOf ctx (.inline s) none none ⟨s, .union es⟩

/-- The type is an object type, or the name of an interface. -/
inductive NamesObject (scope : Scope) : TypeExpr → Prop
  | object {ps : List (Property TypeExpr)} {position : Position} :
      NamesObject scope (.object ps position)
  | interface {name : String} {position : Position} {d : Interface}
      (hd : scope.interface? name = some d) : NamesObject scope (.reference name [] position)

/-- There is an object type behind the type. -/
def IsObjectType (scope : Scope) (n : Node) : Prop :=
  ∃ m, Relation.ReflTransGen (Opens scope) n m ∧ NamesObject scope m.expr

/-- There is a text behind the type. -/
def IsTextType (scope : Scope) (n : Node) : Prop :=
  ∃ m, Relation.ReflTransGen (Opens scope) n m ∧ m.expr.text?.isSome = true

/-- What a type stands for behind which there is nothing else. -/
inductive ComesTo (scope : Scope) (g : Graph) (e : TypeExpr) : TypeRef → Prop
  /-- Object types and interfaces have records. -/
  | object {t : TypeRef} (h : g.isRecord t = true) (htext : e.text? = none) : ComesTo scope g e t
  /-- Enumerations have slots as well. -/
  | enumeration {t : TypeRef} {name : String} {doc : Option String} {values : List TypeRef}
      (h : g.shape? t = some (.enumeration name doc values)) (hobject : ¬NamesObject scope e)
      (htext : e.text? = none) : ComesTo scope g e t
  /-- Anything else has none. -/
  | slotless {t : TypeRef} (h : g.shape? t = none) (hobject : ¬NamesObject scope e)
      (htext : e.text?.isSome = true → t.text?.isSome = true) : ComesTo scope g e t

variable {ctx : ExtractionContext} {r : Registry} {key : NodeKey} {n m m' : Node} {t : TypeRef}
  {g : Graph} {scope : Scope} {e : TypeExpr} {name doc : Option String} {types : List TypeRef}

/-! ### The types of unions -/

/-- **The alternatives of a union of the table** are those of its type, in order. -/
theorem Fills.of_union {keys : List NodeKey} {records : Nat → Prop}
    (h : Fills ctx keys records (Resolved ctx) key (.union name doc types)) :
    ∃ n, IsUnionOf ctx key name doc n ∧
      List.Forall₂ (IsAlternative ctx.scope keys) (alternatives ctx.scope n) types := by
  cases h with
  | unionAlias hd _ hunion _ h => exact ⟨_, .declared hd (isUnion_of_two_le hunion), h⟩
  | union hn h => exact ⟨_, .inline hn, h⟩

theorem IsUnionOf.isUnion (h : IsUnionOf ctx key name doc n) : n.expr.isUnion = true := by
  cases h with
  | declared _ hunion => exact hunion
  | inline => rfl

/-- A union with a name is the body of the alias of that name. -/
theorem IsUnionOf.exists_alias {called : String} (h : IsUnionOf ctx key (some called) doc n) :
    ∃ d, .typeAlias d ∈ ctx.scope ∧ d.name = called ∧ n = d.node := by
  cases h with
  | declared hd => exact ⟨_, hd, rfl, rfl⟩

theorem IsUnionOf.isAt (hscope : IsUnambiguous ctx.scope) (h : IsUnionOf ctx key name doc n) :
    IsAt ctx.scope n := by
  cases h with
  | declared hd => exact isAt_alias (hscope.alias?_of_mem hd)
  | inline hn => exact hn.isAt hscope

/-! ### What is behind a type -/

theorem not_opens_of_namesObject (h : NamesObject scope n.expr) : ¬Opens scope n m := by
  intro hstep
  cases hstep with
  | promise => cases h
  | named _ hd =>
    cases h with
    | interface hd' =>
      have hfind := Scope.find?_of_alias? hd
      rw [Scope.find?_of_interface? hd'] at hfind
      cases hfind

theorem not_namesObject_of_interface? {name : String} {arguments : List TypeExpr}
    {position : Position} (h : scope.interface? name = none) :
    ¬NamesObject scope (.reference name arguments position) := by
  intro hnames
  cases hnames with
  | interface hd => cases h.symm.trans hd

theorem not_opens_of_text (h : n.expr.text?.isSome = true) : ¬Opens scope n m := by
  intro hstep
  cases hstep with
  | promise | named => cases h

/-! ### What alternatives stand for -/

theorem ComesTo.not_union (h : ComesTo scope g e t) :
    g.shape? t ≠ some (.union name doc types) := by
  intro hunion
  cases h with
  | object h =>
    rw [Graph.isRecord, hunion] at h
    cases h
  | enumeration h => cases hunion.symm.trans h
  | slotless h => cases hunion.symm.trans h

theorem ComesTo.isRecord (h : ComesTo scope g e t) (hobject : NamesObject scope e) :
    g.isRecord t = true := by
  cases h with
  | object h => exact h
  | enumeration _ hnot => exact absurd hobject hnot
  | slotless _ hnot => exact absurd hobject hnot

theorem ComesTo.text (h : ComesTo scope g e t) (htext : e.text?.isSome = true) :
    t.text?.isSome = true := by
  cases h with
  | object _ hnone | enumeration _ _ hnone =>
    rw [hnone] at htext
    cases htext
  | slotless _ _ h => exact h htext

section Complete

variable {slot : Nat} {steps : List LineageStep} {s : Site} {position : Position}
  (h : IsComplete ctx r) (hscope : IsUnambiguous ctx.scope)

include h hscope

theorem isRecord_of_recordOf (hslot : slotIn r.keys key = some slot)
    (hkey : RecordOf ctx key steps) : r.graph.isRecord (.node slot) = true := by
  obtain ⟨shape, hshape, hfills⟩ := h.filled (getElem?_of_slotIn hslot) id
  exact recordsOf_iff.mpr ⟨_, hshape, (hfills.of_recordOf hscope hkey).1⟩

theorem isRecord_of_inline {ps : List (Property TypeExpr)}
    (hat : IsAt ctx.scope ⟨s, .object ps position⟩)
    (hslot : slotIn r.keys (.inline s) = some slot) : r.graph.isRecord (.node slot) = true := by
  obtain ⟨shape, hshape, hfills⟩ := h.filled (getElem?_of_slotIn hslot) id
  cases hfills.completesInline hscope hat with
  | object => exact recordsOf_iff.mpr ⟨_, hshape, rfl⟩

/-- The slot of an alias that is no union has a record. -/
theorem isRecord_of_alias? {d : Alias} {name : String} (hd : ctx.scope.alias? name = some d)
    (hunion : d.type.isUnion = false) (hslot : slotIn r.keys (.declared name) = some slot) :
    d.type.isObject = true ∧ r.graph.isRecord (.node slot) = true := by
  have hfind := Scope.find?_of_alias? hd
  have hmem := Scope.mem_of_find? hfind
  obtain rfl : d.name = name := Scope.name_of_find? hfind
  obtain ⟨shape, hfills⟩ := h.fills (List.mem_of_getElem? (getElem?_of_slotIn hslot))
  have hshape : namesShape ctx.scope d = true := hfills.hasSlot hscope hmem
  have hobject : d.type.isObject = true := by
    by_contra hother
    have hyes := isUnion_of_namesShape hshape (Bool.eq_false_iff.mpr hother)
    cases hunion.symm.trans hyes
  obtain ⟨ps, position, htype⟩ := exists_eq_object hobject
  have hnode : d.node.expr.isObject = true := hobject
  have halternatives : alternatives ctx.scope d.node =
      [⟨Site.body d.name, .object ps position⟩] := by
    rw [alternatives_of_isObject hnode, Alias.node, htype]
  exact ⟨hobject, isRecord_of_recordOf h hscope hslot (.objectAlias hmem hshape halternatives)⟩

theorem shape?_of_enumeration {d : Enumeration} (hd : .enumeration d ∈ ctx.scope)
    (hslot : slotIn r.keys (.declared d.name) = some slot) :
    ∃ values, r.graph.shape? (.node slot) = some (.enumeration d.name d.doc values) := by
  obtain ⟨shape, hshape, hfills⟩ := h.filled (getElem?_of_slotIn hslot) id
  cases hfills.completesDeclaration hscope hd with
  | enumeration => exact ⟨_, congrArg (Option.map Descriptor.shape) hshape⟩

/-- **What an alternative that is no union stands for** can be told from the end behind it. -/
theorem exists_comesTo (hn : IsAt ctx.scope n) (hsingle : IsNoUnion ctx.scope n)
    (ht : IsAlternative ctx.scope r.keys n t) :
    ∃ m, Relation.ReflTransGen (Opens ctx.scope) n m ∧ (∀ x, ¬Opens ctx.scope m x) ∧
      ComesTo ctx.scope r.graph m.expr t := by
  obtain ⟨inner, hstrips, hdenotes⟩ := ht
  have hopens := hsingle.opens hstrips.unwraps
  have hat := hstrips.isAt hn
  obtain ⟨⟨site, e⟩, nullable, raw⟩ := inner
  cases hdenotes with
  | keyword | array =>
    exact ⟨_, hopens, nofun, .slotless rfl nofun nofun⟩
  | literal => exact ⟨_, hopens, nofun, .slotless rfl nofun id⟩
  | union => cases hsingle _ hopens
  | object hslot => exact ⟨_, hopens, nofun, .object (isRecord_of_inline h hscope hat hslot) rfl⟩
  | @declared _ name position _ d slot hd hslot =>
    obtain rfl : d.name = name := Scope.name_of_find? hd
    have hmem := Scope.mem_of_find? hd
    cases d with
    | interface d =>
      have hobject : NamesObject ctx.scope (.reference d.name [] position) :=
        .interface (hscope.interface?_of_mem hmem)
      refine ⟨_, hopens, fun _ => not_opens_of_namesObject hobject, .object ?_ rfl⟩
      exact isRecord_of_recordOf h hscope hslot (.interface hmem)
    | enumeration d =>
      obtain ⟨values, hvalues⟩ := shape?_of_enumeration h hscope hmem hslot
      refine ⟨_, hopens, fun _ => not_opens_of_alias? ne_promiseName_of_nil ?_,
        .enumeration hvalues ?_ rfl⟩
      · rw [Scope.alias?, hd]
      · exact not_namesObject_of_interface? (by rw [Scope.interface?, hd])
    | typeAlias d =>
      have hd : ctx.scope.alias? d.name = some d := hscope.alias?_of_mem hmem
      have hopens' := hopens.tail (.named ne_promiseName_of_nil hd)
      obtain ⟨hobject, hrecord⟩ := isRecord_of_alias? h hscope hd (hsingle _ hopens') hslot
      obtain ⟨ps, position, htype⟩ := exists_eq_object hobject
      have hexpr : d.node.expr = .object ps position := htype
      refine ⟨_, hopens', fun _ => not_opens_of_namesObject (hexpr ▸ .object), .object hrecord ?_⟩
      rw [hexpr]
      rfl
  | arrayName hd hname =>
    refine ⟨_, hopens, fun _ => not_opens_of_alias? ?_ ?_,
      .slotless rfl (by cases ·) (by cases ·)⟩
    · rintro _ - rfl
      revert hname
      decide
    · rw [Scope.alias?, hd]
  | date hd =>
    refine ⟨_, hopens, fun _ => not_opens_of_alias? ne_promiseName_of_nil ?_,
      .slotless rfl (not_namesObject_of_interface? ?_) (by cases ·)⟩
    · rw [Scope.alias?, hd]
    · rw [Scope.interface?, hd]
  | openScalar hd =>
    refine ⟨_, hopens, fun _ => not_opens_of_alias? ne_promiseName_of_nil ?_,
      .slotless rfl (not_namesObject_of_interface? ?_) (by cases ·)⟩
    · rw [Scope.alias?, hd]
    · rw [Scope.interface?, hd]

section Single

variable (hn : IsAt ctx.scope n) (hsingle : IsNoUnion ctx.scope n)
  (ht : IsAlternative ctx.scope r.keys n t)

include hn hsingle ht

/-- **An alternative that is no union** has no union in its slot. -/
theorem shape?_ne_union : r.graph.shape? t ≠ some (.union name doc types) := by
  obtain ⟨m, -, -, hcomes⟩ := exists_comesTo h hscope hn hsingle ht
  exact hcomes.not_union

/-- An object type has a record. -/
theorem isRecord_of_isObjectType (hobject : IsObjectType ctx.scope n) :
    r.graph.isRecord t = true := by
  obtain ⟨m, hopens, hend, hcomes⟩ := exists_comesTo h hscope hn hsingle ht
  obtain ⟨m', hopens', hnames⟩ := hobject
  obtain rfl := eq_of_opens hopens hopens' hend fun _ => not_opens_of_namesObject hnames
  exact hcomes.isRecord hnames

/-- A text stands for itself. -/
theorem text_of_isTextType (htext : IsTextType ctx.scope n) : t.text?.isSome = true := by
  obtain ⟨m, hopens, hend, hcomes⟩ := exists_comesTo h hscope hn hsingle ht
  obtain ⟨m', hopens', hliteral⟩ := htext
  obtain rfl := eq_of_opens hopens hopens' hend fun _ => not_opens_of_text hliteral
  exact hcomes.text hliteral

end Single

end Complete

end Extraction

end DeclaredSchema
