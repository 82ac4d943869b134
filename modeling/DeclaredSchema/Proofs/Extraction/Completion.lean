import DeclaredSchema.Proofs.Extraction.Meaning

/-!
# What completes the slot of a key

A key is that of one declaration, since no two declarations have the same name, or that of the one
inline type at its site. So the shape that completes a slot can be told from the declaration or from
the type. An alias has one kind of shape: that of its only object type, that of its texts, or a
union.

## Main definitions

* `CompletesDeclaration` — the shapes that complete the slot of a declaration
* `CompletesInline` — the shapes that complete the slot of an inline type

## Main results

* `Fills.completesDeclaration`, `Fills.completesInline` — what completes the slot of a key
* `CompletesDeclaration.of_object`, `CompletesDeclaration.of_union`, `CompletesDeclaration.of_texts`
  — the kinds of aliases
-/

namespace DeclaredSchema

namespace Extraction

section

variable (ctx : ExtractionContext) (keys : List NodeKey) (records : Nat → Prop)

/-- The shapes that complete the slot of a declaration. -/
inductive CompletesDeclaration : Declaration → Shape → Prop
  | interface {d : Interface} {ms : List Member}
      (h : List.Forall₂ (IsInherited ctx.scope keys records) (lineage ctx.scope d) ms) :
      CompletesDeclaration (.interface d) (.record d.name d.doc (lastOfEach Member.name ms))
  | enumeration {d : Enumeration} {values : List TypeRef}
      (h : List.Forall₂ (IsValueOf d) d.members values) :
      CompletesDeclaration (.enumeration d) (.enumeration d.name d.doc values)
  | objectAlias {d : Alias} {site : Site} {ps : List (Property TypeExpr)} {position : Position}
      {ms : List Member} (hshape : namesShape ctx.scope d = true)
      (hobject : alternatives ctx.scope d.node = [⟨site, .object ps position⟩])
      (h : List.Forall₂ (IsMember ctx.scope keys records) (site.signatures d.name ps) ms) :
      CompletesDeclaration (.typeAlias d) (.record d.name d.doc ms)
  | unionAlias {d : Alias} {types : List TypeRef} (hshape : namesShape ctx.scope d = true)
      (hunion : 2 ≤ (alternatives ctx.scope d.node).length)
      (htexts : isTextEnumeration ctx (alternatives ctx.scope d.node) = false)
      (h : List.Forall₂ (IsAlternative ctx.scope keys) (alternatives ctx.scope d.node) types) :
      CompletesDeclaration (.typeAlias d) (.union (some d.name) d.doc types)
  | textAlias {d : Alias} (hshape : namesShape ctx.scope d = true)
      (htexts : isTextEnumeration ctx (alternatives ctx.scope d.node) = true) :
      CompletesDeclaration (.typeAlias d) (.enumeration d.name d.doc
        (((alternatives ctx.scope d.node).filterMap fun n => n.expr.literal?).map
          (literalType none)))

/-- The shapes that complete the slot of an inline type. -/
inductive CompletesInline (s : Site) : TypeExpr → Shape → Prop
  | object {ps : List (Property TypeExpr)} {position : Position} {owner : String}
      {ms : List Member}
      (h : List.Forall₂ (IsMember ctx.scope keys records) (s.signatures owner ps) ms) :
      CompletesInline s (.object ps position)
        (.inlineRecord s!"{owner}, line {position.line}" none ms)
  | union {es : List TypeExpr} {types : List TypeRef}
      (h : List.Forall₂ (IsAlternative ctx.scope keys) (alternatives ctx.scope ⟨s, .union es⟩)
        types) : CompletesInline s (.union es) (.union none none types)

end

variable {ctx : ExtractionContext} {keys : List NodeKey} {records : Nat → Prop}
  {asked : Node → Prop} {shape : Shape} {d : Alias} {s : Site} {e : TypeExpr}
  {ps : List (Property TypeExpr)} {position : Position}

/-- **What completes the slot of a declaration** is told by the declaration. -/
theorem Fills.completesDeclaration {d : Declaration}
    (h : Fills ctx keys records asked (.declared d.name) shape) (hscope : IsUnambiguous ctx.scope)
    (hd : d ∈ ctx.scope) : CompletesDeclaration ctx keys records d shape := by
  generalize hkey : NodeKey.declared d.name = key at h
  have hdeclared : ∀ {d' : Declaration}, d' ∈ ctx.scope →
      NodeKey.declared d.name = .declared d'.name → d = d' := fun hd' hname =>
    hscope.eq hd hd' (NodeKey.declared.inj hname)
  cases h with
  | interface hd' h =>
    rw [hdeclared hd' hkey]
    exact .interface h
  | enumeration hd' h =>
    rw [hdeclared hd' hkey]
    exact .enumeration h
  | objectAlias hd' hshape hobject h =>
    rw [hdeclared hd' hkey]
    exact .objectAlias hshape hobject h
  | unionAlias hd' hshape hunion htexts h =>
    rw [hdeclared hd' hkey]
    exact .unionAlias hshape hunion htexts h
  | textAlias hd' hshape htexts =>
    rw [hdeclared hd' hkey]
    exact .textAlias hshape htexts
  | object | union => cases hkey

/-- **What completes the slot of an inline type** is told by the type. -/
theorem Fills.completesInline (h : Fills ctx keys records (Resolved ctx) (.inline s) shape)
    (hscope : IsUnambiguous ctx.scope) (hn : IsAt ctx.scope ⟨s, e⟩) :
    CompletesInline ctx keys records s e shape := by
  cases h with
  | object hasked h =>
    rw [hn.unique (hasked.isAt hscope)]
    exact .object h
  | union hasked h =>
    rw [hn.unique (hasked.isAt hscope)]
    exact .union h

/-! ### The kinds of aliases -/

theorem isTextEnumeration_object : isTextEnumeration ctx [⟨s, .object ps position⟩] = false := by
  rw [isTextEnumeration, List.all_cons]
  exact Bool.and_false _

theorem not_two_le_length_singleton {α : Type} {x : α} : ¬2 ≤ [x].length := by
  simp

namespace CompletesDeclaration

/-- An alias whose only alternative is an object type has a record. -/
theorem of_object (h : CompletesDeclaration ctx keys records (.typeAlias d) shape)
    (hobject : alternatives ctx.scope d.node = [⟨s, .object ps position⟩]) :
    ∃ ms, List.Forall₂ (IsMember ctx.scope keys records) (s.signatures d.name ps) ms ∧
      shape = .record d.name d.doc ms := by
  cases h with
  | objectAlias hshape hobject' h =>
    cases hobject.symm.trans hobject'
    exact ⟨_, h, rfl⟩
  | unionAlias hshape hunion =>
    rw [hobject] at hunion
    exact absurd hunion not_two_le_length_singleton
  | textAlias hshape htexts =>
    rw [hobject, isTextEnumeration_object] at htexts
    cases htexts

/-- An alias of several alternatives that do not become an enumeration has a union. -/
theorem of_union (h : CompletesDeclaration ctx keys records (.typeAlias d) shape)
    (hunion : 2 ≤ (alternatives ctx.scope d.node).length)
    (htexts : isTextEnumeration ctx (alternatives ctx.scope d.node) = false) :
    ∃ types, List.Forall₂ (IsAlternative ctx.scope keys) (alternatives ctx.scope d.node) types ∧
      shape = .union (some d.name) d.doc types := by
  cases h with
  | objectAlias hshape hobject =>
    rw [hobject] at hunion
    exact absurd hunion not_two_le_length_singleton
  | unionAlias hshape _ _ h => exact ⟨_, h, rfl⟩
  | textAlias hshape htexts' => cases htexts.symm.trans htexts'

/-- An alias of alternatives that become an enumeration has the enumeration. -/
theorem of_texts (h : CompletesDeclaration ctx keys records (.typeAlias d) shape)
    (htexts : isTextEnumeration ctx (alternatives ctx.scope d.node) = true) :
    shape = .enumeration d.name d.doc
      (((alternatives ctx.scope d.node).filterMap fun n => n.expr.literal?).map
        (literalType none)) := by
  cases h with
  | objectAlias hshape hobject =>
    rw [hobject, isTextEnumeration_object] at htexts
    cases htexts
  | unionAlias hshape _ htexts' => cases htexts.symm.trans htexts'
  | textAlias => rfl

end CompletesDeclaration

end Extraction

end DeclaredSchema
