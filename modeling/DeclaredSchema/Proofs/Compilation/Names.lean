import DeclaredSchema.Proofs.Extraction.Table
import DeclaredSchema.Proofs.Synthesis.Ending

/-!
# Where the names of types come from

A type of a schema is made with the name that its shape has by itself, or with an invented one. In
the table of a file such a name is one that the file gives: the name of a declaration, or the text
with which an inline object type names itself; used as input, it has an ending. The only other ones
are derived from the texts of an inline union, of which there are two at least. Derived names, like
invented ones, consist of letters and underscores and do not depend on what the file has for names.

## Main definitions

* `IsGiven` — the names that a file gives to types

## Main results

* `isName_derivedName` — derived names are names
* `exists_isGiven_of_refused` — a name that is refused is given by the file
-/

namespace DeclaredSchema

open Synthesis Extraction

/-! ### Derived names -/

theorem isNamePart_of_isNameStart {c : Char} (h : isNameStart c = true) : isNamePart c = true := by
  unfold isNameStart at h
  unfold isNamePart Char.isAlphanum
  rcases Bool.or_eq_true_iff.mp h with h | h
  · rw [h]
    rfl
  · rw [h, Bool.or_true]

theorem isNameStart_of_mem_lettersOnly {c : Char} {inRun : Bool} {text : List Char}
    (h : c ∈ lettersOnly inRun text) : isNameStart c = true := by
  induction text generalizing inRun with
  | nil => cases h
  | cons first rest ih =>
    unfold lettersOnly at h
    split at h
    · next halpha =>
      rcases List.mem_cons.mp h with rfl | h
      · rw [isNameStart, halpha]
        rfl
      · exact ih h
    · split at h
      · exact ih h
      · rcases List.mem_cons.mp h with rfl | h
        · rfl
        · exact ih h

theorem isNameStart_of_mem_derivedName {c : Char} {texts : List String}
    (h : c ∈ (derivedName texts).toList) : isNameStart c = true := by
  rw [derivedName, String.toList_intercalate, List.map_map] at h
  induction texts with
  | nil => cases h
  | cons text rest ih =>
    have htext : ∀ {c}, c ∈ (String.ofList (lettersOnly false text.toList)).toList →
        isNameStart c = true := fun hc => isNameStart_of_mem_lettersOnly (String.toList_ofList ▸ hc)
    cases rest with
    | nil =>
      rw [List.map_singleton, List.intercalate_singleton] at h
      exact htext h
    | cons next rest =>
      rw [List.map_cons, List.map_cons, List.intercalate_cons_cons, ← List.map_cons, List.mem_append,
        List.mem_append] at h
      rcases h with (h | h) | h
      · exact htext h
      · have hmark : "__".toList.all isNameStart = true := by decide
        exact List.all_eq_true.mp hmark c h
      · exact ih h

/-- The name derived from several texts is a name. -/
theorem isName_derivedName {texts : List String} (h : 2 ≤ texts.length) :
    isName (derivedName texts) = true := by
  have hall : ∀ {c}, c ∈ (derivedName texts).toList → isNameStart c = true :=
    isNameStart_of_mem_derivedName
  unfold isName
  cases hchars : (derivedName texts).toList with
  | nil =>
    match texts, h with
    | text :: next :: rest, _ =>
      rw [derivedName, String.toList_intercalate, List.map_cons, List.map_cons, List.map_cons,
        List.map_cons, List.intercalate_cons_cons] at hchars
      simp at hchars
  | cons c rest =>
    rw [hchars] at hall
    refine Bool.and_eq_true_iff.mpr ⟨hall (List.mem_cons_self ..), List.all_eq_true.mpr fun c hc => ?_⟩
    exact isNamePart_of_isNameStart (hall (List.mem_cons_of_mem _ hc))

/-! ### Names that a file gives -/

/-- The names that a file gives to types: those of the declarations that get slots, and the texts
with which inline object types name themselves. -/
inductive IsGiven (ctx : ExtractionContext) : String → Prop
  | declared {d : Declaration} (hd : d ∈ ctx.scope) (hslot : hasSlot ctx.scope d = true) :
      IsGiven ctx d.name
  | typename {s : Site} {ps : List (Property TypeExpr)} {position : Position} {owner : String}
      {sig : Signature} {t : Stripped} {text : String}
      (hobject : Resolved ctx ⟨s, .object ps position⟩) (hsig : sig ∈ s.signatures owner ps)
      (hname : sig.property.name = typenameMember) (ht : Strips ctx.scope (typeOf sig) t)
      (htext : t.node.expr = .literal (.str text)) : IsGiven ctx text

variable {ctx : ExtractionContext} {keys : List NodeKey} {records : Nat → Prop} {key : NodeKey}
  {shape : Shape} {mode : Mode} {name : String}

/-- Only string literals stand for texts. -/
theorem literal_of_denotes {scope : Scope} {n : Node} {raw : Option String} {r : TypeRef}
    {text : String} (h : Denotes scope keys n raw r) (htext : r.text? = some text) :
    n.expr = .literal (.str text) := by
  cases h with
  | @literal s value raw =>
    have hvalue : value.text? = some text := htext
    cases value with
    | str text' => rw [Option.some.inj hvalue]
    | int | float | bool => cases hvalue
  | keyword | array | object | union | declared | arrayName | date | openScalar => cases htext

/-- The text with which an inline object type names itself stands in one of its members. -/
theorem exists_of_firstTypename? {ms : List Member} {text : String}
    (h : firstTypename? ms = some text) :
    ∃ m ∈ ms, m.name = typenameMember ∧ m.type.text? = some text := by
  obtain ⟨m, hm, htext⟩ := List.mem_filterMap.mp (List.mem_of_head? h)
  obtain ⟨hm, hname⟩ := List.mem_filter.mp hm
  exact ⟨m, hm, of_decide_eq_true hname, htext⟩

/-- A union has the name that it is given, or one derived from its texts. -/
theorem ownName?_union {given doc : Option String} {types : List TypeRef}
    (h : ownName? mode (.union given doc types) = some name) :
    given = some name ∨ isTexts types = true ∧ name = derivedName (types.filterMap TypeRef.text?) := by
  cases hgiven : givenName given with
  | some n =>
    obtain ⟨rfl, -⟩ := Option.filter_eq_some_iff.mp hgiven
    rw [ownName?, hgiven] at h
    split at h <;> exact .inl h
  | none =>
    rw [ownName?, hgiven] at h
    split at h
    · next htexts => exact .inr ⟨htexts, (Option.some.inj h).symm⟩
    · cases h

/-- The name derived from the texts of a union in the table of a file is a name. -/
theorem isName_derivedName_of_fills {doc given : Option String} {types : List TypeRef}
    (h : Fills ctx keys records (Resolved ctx) key (.union given doc types))
    (htexts : isTexts types = true) :
    isName (derivedName (types.filterMap TypeRef.text?)) = true := by
  refine isName_derivedName ?_
  rw [List.length_filterMap_eq_countP, List.countP_eq_length.mpr (List.all_eq_true.mp htexts)]
  exact h.two_le_length

/-- **The name that a shape has by itself** is given by the file, or derived from texts. -/
theorem exists_isGiven_of_fills (h : Fills ctx keys records (Resolved ctx) key shape)
    (hname : ownName? mode shape = some name) :
    isName name = true ∨ ∃ given mode', IsGiven ctx given ∧ name = given ++ ending mode' := by
  have hplain : ∀ {text : String}, text = text ++ ending .output := String.append_empty.symm
  cases h with
  | interface hd => exact .inr ⟨_, mode, .declared hd rfl, (Option.some.inj hname).symm⟩
  | objectAlias hd hshape =>
    exact .inr ⟨_, mode, .declared hd hshape, (Option.some.inj hname).symm⟩
  | enumeration hd =>
    obtain rfl := Option.some.inj hname
    exact .inr ⟨_, .output, .declared hd rfl, hplain⟩
  | textAlias hd hshape =>
    obtain rfl := Option.some.inj hname
    exact .inr ⟨_, .output, .declared hd hshape, hplain⟩
  | @unionAlias d types hd hshape hunion htexts hall =>
    have hfills : Fills ctx keys records (Resolved ctx) (.declared d.name)
        (.union (some d.name) d.doc types) := .unionAlias hd hshape hunion htexts hall
    rcases ownName?_union hname with hgiven | ⟨htexts, rfl⟩
    · obtain rfl := Option.some.inj hgiven
      exact .inr ⟨_, .output, .declared hd hshape, hplain⟩
    · exact .inl (isName_derivedName_of_fills hfills htexts)
  | object hobject hmembers =>
    obtain ⟨text, hfirst, rfl⟩ := Option.map_eq_some_iff.mp hname
    obtain ⟨m, hm, hmember, htext⟩ := exists_of_firstTypename? hfirst
    obtain ⟨sig, hsig, hmeans⟩ := exists_of_forall₂ hmembers.flip hm
    obtain ⟨t, ht, hdenotes, -⟩ := hmeans.type
    exact .inr ⟨text, mode, .typename hobject hsig (hmeans.name.symm.trans hmember) ht
      (literal_of_denotes hdenotes htext), rfl⟩
  | @union s es types hasked hall =>
    have hfills : Fills ctx keys records (Resolved ctx) (.inline s) (.union none none types) :=
      .union hasked hall
    rcases ownName?_union hname with hgiven | ⟨htexts, rfl⟩
    · cases hgiven
    · exact .inl (isName_derivedName_of_fills hfills htexts)

/-- **A name that is refused** is one that the file gives, and that is no name. -/
theorem exists_isGiven_of_refused {unionsAsEnums : Bool} {file : SourceUnit} {g : Graph}
    {options : CompileOptions} {f : NameFault} (hextract : extract unionsAsEnums file = .ok g)
    (hfactory : ∀ make, options.factory = some make → ∀ p f, make p ≠ .error f)
    (h : Refused g options f) :
    ∃ given mode, IsGiven ⟨file.declarations, unionsAsEnums⟩ given ∧ isName given = false ∧
      checkName (given ++ ending mode) = .error f := by
  cases h with
  | factory hmake herror => exact absurd herror (hfactory _ hmake _ _)
  | @shape slot s mode n hs hname hcheck =>
    obtain ⟨r, hrun, rfl⟩ := yields_of_extract hextract
    obtain ⟨-, hcomplete, -⟩ := isComplete_of_run hrun
    obtain ⟨d, hd, rfl⟩ := Option.map_eq_some_iff.mp hs
    obtain ⟨-, key, hfills⟩ := hcomplete.exists_fills hd
    rcases exists_isGiven_of_fills hfills hname with hok | ⟨given, mode', hgiven, rfl⟩
    · rw [(checkName_eq_ok_iff n).mpr hok] at hcheck
      cases hcheck
    · refine ⟨given, mode', hgiven, Bool.eq_false_iff.mpr fun hok => ?_, hcheck⟩
      have hending : (ending mode').toList.all isNamePart = true := by cases mode' <;> decide
      rw [(checkName_eq_ok_iff _).mpr (isName_append hok hending)] at hcheck
      cases hcheck

end DeclaredSchema
