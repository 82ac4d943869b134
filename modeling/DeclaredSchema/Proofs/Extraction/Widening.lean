import DeclaredSchema.Proofs.Declaration.Widening
import DeclaredSchema.Proofs.Extraction.Table

/-!
# What a table says in a wider file

The types of a file stand for the same in any file that declares all of it, and nothing else that it
mentions. So what is resolved in the file is resolved in the wider one, and a table of the file says
of each of its keys what the wider file says of it, too.

## Main definitions

* `WidensTo` — the scope of a run goes beyond that of another one

## Main results

* `WidensTo.resolved`, `WidensTo.denotes`, `WidensTo.fills` — the meaning of the file is kept
* `WidensTo.inv` — a table of the file is filled for the wider file
-/

namespace DeclaredSchema

namespace Extraction

/-- The run `ctx'` differs from `ctx` in declarations that `ctx` does not mention. -/
structure WidensTo (ctx ctx' : ExtractionContext) : Prop where
  scope : Widens ctx.scope ctx'.scope
  unionsAsEnums : ctx'.unionsAsEnums = ctx.unionsAsEnums
  unambiguous : IsUnambiguous ctx.scope

variable {ctx ctx' : ExtractionContext} {n m : Node} {s : Signature} {t : Stripped} {d : Declaration}
  {raw : Option String} {type : TypeRef} {keys : List NodeKey} {records : Nat → Prop}
  {key : NodeKey} {shape : Shape} {U : Nat → Prop} {r : Registry}

theorem isAt_of_mem (hscope : IsUnambiguous ctx.scope) (hd : d ∈ ctx.scope) {e : TypeExpr}
    (hbody : d.body? = some e) : IsAt ctx.scope ⟨Site.body d.name, e⟩ :=
  isAt_body (hscope d hd) hbody

theorem isAt_node (hscope : IsUnambiguous ctx.scope) {d : Alias} (hd : .typeAlias d ∈ ctx.scope) :
    IsAt ctx.scope d.node :=
  isAt_of_mem (d := .typeAlias d) hscope hd rfl

namespace WidensTo

variable (h : WidensTo ctx ctx')

include h

theorem mem (hd : d ∈ ctx.scope) : d ∈ ctx'.scope :=
  Scope.mem_of_find? (h.scope.found (h.unambiguous d hd))

/-! ### The types that are resolved -/

theorem needs_eq (hn : IsAt ctx.scope n) : needs ctx' n = needs ctx n := by
  obtain ⟨s, e⟩ := n
  cases e with
  | union es => exact h.scope.alternatives_eq hn
  | reference name arguments position =>
    have hfind := h.scope.find?_eq (isMentioned_of_isAt hn)
    match arguments with
    | [] | _ :: _ :: _ => rfl
    | [element] => simp only [needs, hfind]
  | keyword | literal | array | object | function => rfl

theorem declarationNeeds_eq (hd : d ∈ ctx.scope) :
    declarationNeeds ctx' d = declarationNeeds ctx d := by
  cases d with
  | interface d => rw [declarationNeeds, declarationNeeds, h.scope.lineage_eq hd]
  | enumeration d => rfl
  | typeAlias d =>
    have hnode := isAt_node h.unambiguous hd
    have htexts : isTextEnumeration ctx' = isTextEnumeration ctx := by
      funext ns
      rw [isTextEnumeration, isTextEnumeration, h.unionsAsEnums]
    rw [declarationNeeds, declarationNeeds, h.scope.namesShape_eq hnode,
      h.scope.alternatives_eq hnode, htexts]

theorem strips (hn : IsAt ctx.scope n) (ht : Strips ctx.scope n t) : Strips ctx'.scope n t :=
  (h.scope.strips_iff hn).mpr ht

/-- **What is resolved** is resolved in the wider file. -/
theorem resolved (hn : Resolved ctx n) : Resolved ctx' n := by
  induction hn with
  | declared hd hm ht =>
    refine .declared (h.mem hd) (h.declarationNeeds_eq hd ▸ hm) (h.strips ?_ ht)
    exact isAt_of_mem_declarationNeeds h.unambiguous hd hm
  | nested hn hm ht ih =>
    have hat := hn.isAt h.unambiguous
    exact .nested ih (h.needs_eq hat ▸ hm) (h.strips (isAt_of_mem_needs hat hm) ht)

/-! ### What types stand for -/

/-- **What a type stands for** does not change. -/
theorem denotes (hn : IsAt ctx.scope n) (hdenotes : Denotes ctx.scope keys n raw type) :
    Denotes ctx'.scope keys n raw type := by
  induction hdenotes with
  | keyword hword => exact .keyword hword
  | literal => exact .literal
  | @array s element _ _ _ ht _ ih =>
    have hat : IsAt ctx.scope ⟨s.child 0, element⟩ := exprAt?_child hn
    exact .array (h.strips hat ht) (ih (ht.isAt hat))
  | object hslot => exact .object hslot
  | union hslot => exact .union hslot
  | declared hd hslot => exact .declared (h.scope.found hd) hslot
  | @arrayName s _ element _ _ _ _ hd hname ht _ ih =>
    have hat : IsAt ctx.scope ⟨s.child 0, element⟩ := exprAt?_child hn
    have hmissing := h.scope.missing (isMentioned_of_isAt hn) hd
    exact .arrayName hmissing hname (h.strips hat ht) (ih (ht.isAt hat))
  | date hd => exact .date (h.scope.missing (isMentioned_of_isAt hn) hd)
  | openScalar hd hdate => exact .openScalar (h.scope.missing (isMentioned_of_isAt hn) hd) hdate

theorem isAlternative (hn : IsAt ctx.scope n) (halternative : IsAlternative ctx.scope keys n type) :
    IsAlternative ctx'.scope keys n type := by
  obtain ⟨t, ht, hdenotes⟩ := halternative
  exact ⟨t, h.strips hn ht, h.denotes (ht.isAt hn) hdenotes⟩

theorem isBag (hs : ∀ n ∈ parts s, IsAt ctx.scope n) {bag : Option Nat}
    (hbag : IsBag ctx.scope keys records s bag) : IsBag ctx'.scope keys records s bag := by
  unfold IsBag at hbag ⊢
  split at hbag
  · exact hbag
  · next p hp =>
    obtain ⟨slot, hslot, hrecord, hbag⟩ := hbag
    refine ⟨slot, h.isAlternative (hs _ ?_) hslot, hrecord, hbag⟩
    rw [parts, hp]
    exact List.mem_cons_self ..
  · exact hbag

theorem isMember {m : Member} (hs : IsAt ctx.scope ⟨s.site, s.property.type⟩)
    (hm : IsMember ctx.scope keys records s m) : IsMember ctx'.scope keys records s m where
  name := hm.name
  doc := hm.doc
  optional := hm.optional
  type := by
    obtain ⟨t, ht, hdenotes, hnullable⟩ := hm.type
    have hat := isAt_of_mem_parts hs typeOf_mem_parts
    exact ⟨t, h.strips hat ht, h.denotes (ht.isAt hat) hdenotes, hnullable⟩
  default := hm.default
  arguments := h.isBag (fun _ => isAt_of_mem_parts hs) hm.arguments

theorem members {ss : List Signature} {ms : List Member}
    (hss : ∀ s ∈ ss, IsAt ctx.scope ⟨s.site, s.property.type⟩)
    (hall : List.Forall₂ (IsMember ctx.scope keys records) ss ms) :
    List.Forall₂ (IsMember ctx'.scope keys records) ss ms := by
  induction hall with
  | nil => exact .nil
  | cons hm _ ih =>
    exact .cons (h.isMember (hss _ (List.mem_cons_self ..)) hm)
      (ih fun s hs => hss s (List.mem_cons_of_mem _ hs))

theorem alternatives {ns : List Node} {types : List TypeRef} (hns : ∀ n ∈ ns, IsAt ctx.scope n)
    (hall : List.Forall₂ (IsAlternative ctx.scope keys) ns types) :
    List.Forall₂ (IsAlternative ctx'.scope keys) ns types := by
  induction hall with
  | nil => exact .nil
  | cons hn _ ih =>
    exact .cons (h.isAlternative (hns _ (List.mem_cons_self ..)) hn)
      (ih fun n hn => hns n (List.mem_cons_of_mem _ hn))

theorem inherited {steps : List LineageStep} {ms : List Member}
    (hsteps : ∀ s, .member s ∈ steps → IsAt ctx.scope ⟨s.site, s.property.type⟩)
    (hall : List.Forall₂ (IsInherited ctx.scope keys records) steps ms) :
    List.Forall₂ (IsInherited ctx'.scope keys records) steps ms := by
  induction hall with
  | nil => exact .nil
  | cons hm _ ih =>
    obtain ⟨s, rfl, hm⟩ := hm
    exact .cons ⟨s, rfl, h.isMember (hsteps s (List.mem_cons_self ..)) hm⟩
      (ih fun s hs => hsteps s (List.mem_cons_of_mem _ hs))

/-- **What completes a slot** completes it in the wider file. -/
theorem fills (hfills : Fills ctx keys records (Resolved ctx) key shape) :
    Fills ctx' keys records (Resolved ctx') key shape := by
  cases hfills with
  | interface hd hall =>
    refine .interface (h.mem hd) ?_
    rw [h.scope.lineage_eq hd]
    exact h.inherited (fun s => isAt_of_mem_lineage (h.unambiguous _ hd)) hall
  | enumeration hd hall => exact .enumeration (h.mem hd) hall
  | objectAlias hd hshape hobject hall =>
    have hnode := isAt_node h.unambiguous hd
    have hat := isAt_of_mem_alternatives hnode (hobject ▸ List.mem_singleton_self _)
    refine .objectAlias (h.mem hd) ((h.scope.namesShape_eq hnode).trans hshape)
      ((h.scope.alternatives_eq hnode).trans hobject) ?_
    exact h.members (fun s => isAt_of_mem_signatures hat) hall
  | unionAlias hd hshape hunion htexts hall =>
    have hnode := isAt_node h.unambiguous hd
    have heq := h.scope.alternatives_eq hnode
    refine .unionAlias (h.mem hd) ((h.scope.namesShape_eq hnode).trans hshape) (heq ▸ hunion) ?_ ?_
    · rwa [heq, isTextEnumeration, h.unionsAsEnums]
    · rw [heq]
      exact h.alternatives (fun n => isAt_of_mem_alternatives hnode) hall
  | textAlias hd hshape htexts =>
    have hnode := isAt_node h.unambiguous hd
    rw [← h.scope.alternatives_eq hnode] at htexts ⊢
    refine .textAlias (h.mem hd) ((h.scope.namesShape_eq hnode).trans hshape) ?_
    rwa [isTextEnumeration, h.unionsAsEnums]
  | object hn hall =>
    refine .object (h.resolved hn) ?_
    exact h.members (fun s => isAt_of_mem_signatures (hn.isAt h.unambiguous)) hall
  | union hn hall =>
    have hat := hn.isAt h.unambiguous
    refine .union (h.resolved hn) ?_
    rw [h.scope.alternatives_eq hat]
    exact h.alternatives (fun n => isAt_of_mem_alternatives hat) hall

/-- **A table of the file** is filled for the wider file. -/
theorem inv (hinv : Inv ctx (Resolved ctx) U r) : Inv ctx' (Resolved ctx') U r where
  length := hinv.length
  filled hkey hunder := by
    obtain ⟨shape, hshape, hfills⟩ := hinv.filled hkey hunder
    exact ⟨shape, hshape, h.fills hfills⟩

theorem hasSlot_eq (hd : d ∈ ctx.scope) : hasSlot ctx'.scope d = hasSlot ctx.scope d := by
  cases d with
  | interface | enumeration => rfl
  | typeAlias d => exact h.scope.namesShape_eq (isAt_node h.unambiguous hd)

/-- The table of a file is one of any other file of the same declarations. -/
theorem isComplete (hmem : ∀ d ∈ ctx'.scope, d ∈ ctx.scope) (hcomplete : IsComplete ctx r) :
    IsComplete ctx' r where
  toInv := h.inv hcomplete.toInv
  declared hd hslot := by
    have hd := hmem _ hd
    exact hcomplete.declared hd ((h.hasSlot_eq hd).symm.trans hslot)

end WidensTo

end Extraction

end DeclaredSchema
