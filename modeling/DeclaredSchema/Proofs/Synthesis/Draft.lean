import DeclaredSchema.Proofs.Synthesis.Image
import Mathlib.Data.List.Nodup

/-!
# Schemas under construction

While a schema is made, some of its types are there by name only: a record is noted before its
members are visited, and gets its fields when all of them have been. `Draft.typeOf?` reads off a
draft what a type of the graph has become so far. A later draft knows all that an earlier one knows
(`Draft.Extends`), so what has been read off stays.

## Main definitions

* `Draft.types`, `Draft.at?`, `Draft.typeOf?`, `Draft.image` — reading a draft
* `Draft.Extends` — a draft that has gone on from another one

## Main results

* `Extends.typeOf?` — what is known stays known
* `typeOf?_define` — filling in a definition changes no type
-/

namespace DeclaredSchema

namespace Draft

open Synthesis

/-! ### Reading a draft -/

/-- The types of the table. -/
def types (d : Draft) : List NamedType := d.claims.map Claim.type

/-- The name of the type that a slot has become in a mode. -/
def at? (d : Draft) (slot : Nat) (mode : Mode) : Option String := d.made.lookup (slot, mode)

/-- What a type of the graph has become. -/
def typeOf? (options : CompileOptions) (d : Draft) (mode : Mode) : TypeRef → Option SchemaType
  | .primitive p =>
    match scalarNameOf? options p with
    | some n => if d.isScalar n then some (.named n) else none
    | none => none
  | .array element => (typeOf? options d mode element).map fun t => .list (.nonNull t)
  | .date => if dateType ∈ d.types then some (.named Date.name) else none
  | .node slot => (d.at? slot mode).map .named
  | .untypedArray | .foreign _ => none

/-- The same as a function into types, with any type where nothing is known. -/
def image (options : CompileOptions) (d : Draft) (r : TypeRef) (mode : Mode) : SchemaType :=
  (d.typeOf? options mode r).getD default

variable {options : CompileOptions} {d d' : Draft} {r : TypeRef} {mode : Mode} {t : SchemaType}
  {n : String} {slot : Nat}

theorem image_eq (h : d.typeOf? options mode r = some t) : d.image options r mode = t := by
  rw [image, h, Option.getD_some]

@[simp] theorem typeOf?_node : d.typeOf? options mode (.node slot) = (d.at? slot mode).map .named :=
  rfl

theorem image_node (h : d.at? slot mode = some n) :
    d.image options (.node slot) mode = .named n :=
  image_eq (Option.map_eq_some_iff.mpr ⟨n, h, rfl⟩)

/-- No type forbids absent values by itself. -/
theorem required_of_typeOf? (h : d.typeOf? options mode r = some t) : t.required = .nonNull t := by
  cases r with
  | primitive p =>
    simp only [typeOf?] at h
    split at h
    · split at h <;> cases h
      rfl
    · cases h
  | array element =>
    obtain ⟨u, -, rfl⟩ := Option.map_eq_some_iff.mp h
    rfl
  | untypedArray | foreign => cases h
  | date =>
    simp only [typeOf?] at h
    split at h <;> cases h
    rfl
  | node slot =>
    obtain ⟨n, -, rfl⟩ := Option.map_eq_some_iff.mp h
    rfl

theorem withNull_of_typeOf? (h : d.typeOf? options mode r = some t) (m : Member) :
    t.withNull m.nullable = wrapped m t := by
  rw [SchemaType.withNull, wrapped, required_of_typeOf? h]
  simp [Member.nullable]

/-! ### The table

In a table of distinct names an entry is found by its name. -/

theorem claim?_eq_some_iff (hnodup : (d.types.map NamedType.name).Nodup) {c : Claim} :
    d.claim? n = some c ↔ c ∈ d.claims ∧ c.type.name = n := by
  constructor
  · intro h
    exact ⟨List.mem_of_find?_eq_some h, by simpa using List.find?_some h⟩
  · rintro ⟨hmem, rfl⟩
    obtain ⟨e, he⟩ : ∃ e, d.claim? c.type.name = some e := by
      rw [← Option.isSome_iff_exists, claim?, List.find?_isSome]
      exact ⟨c, hmem, by simp⟩
    have hname : e.type.name = c.type.name := by simpa using List.find?_some he
    rw [types, List.map_map] at hnodup
    rw [he, List.inj_on_of_nodup_map hnodup (List.mem_of_find?_eq_some he) hmem hname]

theorem exists_claim_of_mem_types {u : NamedType} (h : u ∈ d.types) :
    ∃ c ∈ d.claims, c.type = u :=
  List.mem_map.mp h

theorem mem_types_of_mem_claims {c : Claim} (h : c ∈ d.claims) : c.type ∈ d.types :=
  List.mem_map.mpr ⟨c, h, rfl⟩

theorem type_unique (hnodup : (d.types.map NamedType.name).Nodup) {u v : NamedType}
    (hu : u ∈ d.types) (hv : v ∈ d.types) (h : u.name = v.name) : u = v :=
  List.inj_on_of_nodup_map hnodup hu hv h

/-- Types are claimed under their names. -/
theorem exists_claim?_iff (hnodup : (d.types.map NamedType.name).Nodup) (P : NamedType → Prop) :
    (∃ c, d.claim? n = some c ∧ P c.type) ↔ ∃ u ∈ d.types, u.name = n ∧ P u := by
  constructor
  · rintro ⟨c, hc, hP⟩
    obtain ⟨hmem, hname⟩ := (claim?_eq_some_iff hnodup).mp hc
    exact ⟨c.type, mem_types_of_mem_claims hmem, hname, hP⟩
  · rintro ⟨u, hu, hname, hP⟩
    obtain ⟨c, hc, rfl⟩ := exists_claim_of_mem_types hu
    exact ⟨c, (claim?_eq_some_iff hnodup).mpr ⟨hc, hname⟩, hP⟩

theorem isScalar_iff (hnodup : (d.types.map NamedType.name).Nodup) :
    d.isScalar n = true ↔ (BuiltIn.ofName? n).isSome = true ∨
      ∃ u ∈ d.types, u.name = n ∧ u.definition.isScalar = true := by
  rw [isScalar, Bool.or_eq_true, Option.any_eq_true]
  exact or_congr_right (exists_claim?_iff hnodup fun u => u.definition.isScalar = true)

theorem isObject_iff (hnodup : (d.types.map NamedType.name).Nodup) :
    d.isObject n = true ↔ ∃ u ∈ d.types, u.name = n ∧ u.definition.isObject = true := by
  rw [isObject, Option.any_eq_true]
  exact exists_claim?_iff hnodup fun u => u.definition.isObject = true

/-- What has become a type without wrappings is called like a scalar, or it is a slot. -/
theorem isScalar_or_at? (hnodup : (d.types.map NamedType.name).Nodup)
    (h : d.typeOf? options mode r = some (.named n)) :
    d.isScalar n = true ∨ ∃ slot, r = .node slot ∧ d.at? slot mode = some n := by
  cases r with
  | primitive p =>
    simp only [typeOf?] at h
    split at h
    · split at h
      · next hscalar =>
        cases h
        exact .inl hscalar
      · cases h
    · cases h
  | array element =>
    obtain ⟨_, -, h⟩ := Option.map_eq_some_iff.mp h
    cases h
  | untypedArray | foreign => cases h
  | date =>
    simp only [typeOf?] at h
    split at h
    · next hdate =>
      cases h
      exact .inl ((isScalar_iff hnodup).mpr (.inr ⟨dateType, hdate, rfl, rfl⟩))
    · cases h
  | node slot =>
    obtain ⟨n', hn, h⟩ := Option.map_eq_some_iff.mp h
    cases h
    exact .inr ⟨slot, rfl, hn⟩

/-- A name that nobody has is new to the table, and no built-in scalar has it. -/
theorem free_of_owner? (h : d.owner? n = none) :
    BuiltIn.ofName? n = none ∧ n ∉ d.types.map NamedType.name := by
  unfold owner? at h
  split at h
  · cases h
  · next hb =>
    refine ⟨by simpa using hb, fun hmem => ?_⟩
    obtain ⟨u, hu, rfl⟩ := List.mem_map.mp hmem
    obtain ⟨c, hc, rfl⟩ := exists_claim_of_mem_types hu
    have hnone : d.claim? c.type.name = none := by simpa using h
    have := List.find?_eq_none.mp hnone c hc
    simp at this

/-! ### Going on -/

/-- `d'` has gone on from `d`: nothing is taken back. -/
structure Extends (d d' : Draft) : Prop where
  /-- No entry of the table has changed. -/
  claims : d.claims <+: d'.claims
  /-- What slots have become, they still are. -/
  made : d.made <+: d'.made
  /-- The names invented so far are not invented again. -/
  invented : d.invented ≤ d'.invented

namespace Extends

theorem refl (d : Draft) : d.Extends d :=
  ⟨List.prefix_refl _, List.prefix_refl _, Nat.le_refl _⟩

theorem trans {a b c : Draft} (h : a.Extends b) (h' : b.Extends c) : a.Extends c :=
  ⟨h.claims.trans h'.claims, h.made.trans h'.made, Nat.le_trans h.invented h'.invented⟩

theorem types (h : d.Extends d') : d.types <+: d'.types := h.claims.map Claim.type

theorem mem_types (h : d.Extends d') {u : NamedType} (hu : u ∈ d.types) : u ∈ d'.types :=
  h.types.subset hu

theorem at? (h : d.Extends d') (hn : d.at? slot mode = some n) : d'.at? slot mode = some n := by
  obtain ⟨more, hmore⟩ := h.made
  rw [Draft.at?, ← hmore, List.lookup_append]
  rw [Draft.at?] at hn
  rw [hn, Option.some_or]

theorem claim? (h : d.Extends d') {c : Claim} (hc : d.claim? n = some c) :
    d'.claim? n = some c := by
  obtain ⟨more, hmore⟩ := h.claims
  rw [Draft.claim?, ← hmore, List.find?_append]
  rw [Draft.claim?] at hc
  rw [hc, Option.some_or]

theorem isScalar (h : d.Extends d') (hn : d.isScalar n = true) : d'.isScalar n = true := by
  rw [Draft.isScalar, Bool.or_eq_true, Option.any_eq_true] at hn ⊢
  rcases hn with hb | ⟨c, hc, hs⟩
  · exact .inl hb
  · exact .inr ⟨c, h.claim? hc, hs⟩

theorem isObject (h : d.Extends d') (hn : d.isObject n = true) : d'.isObject n = true := by
  rw [Draft.isObject, Option.any_eq_true] at hn ⊢
  obtain ⟨c, hc, hs⟩ := hn
  exact ⟨c, h.claim? hc, hs⟩

/-- **What is known stays known.** -/
theorem typeOf? (h : d.Extends d') (hr : d.typeOf? options mode r = some t) :
    d'.typeOf? options mode r = some t := by
  induction r generalizing t with
  | primitive p =>
    simp only [Draft.typeOf?] at hr ⊢
    split at hr
    · next n hn =>
      split at hr
      · next hs => rw [if_pos (h.isScalar hs)]; exact hr
      · cases hr
    · cases hr
  | array element ih =>
    obtain ⟨u, hu, rfl⟩ := Option.map_eq_some_iff.mp hr
    exact Option.map_eq_some_iff.mpr ⟨u, ih hu, rfl⟩
  | untypedArray | foreign => cases hr
  | date =>
    simp only [Draft.typeOf?] at hr ⊢
    split at hr
    · next hd => rw [if_pos (h.mem_types hd)]; exact hr
    · cases hr
  | node slot =>
    obtain ⟨n, hn, rfl⟩ := Option.map_eq_some_iff.mp hr
    exact Option.map_eq_some_iff.mpr ⟨n, h.at? hn, rfl⟩

theorem image_eq (h : d.Extends d') (hr : d.typeOf? options mode r = some t) :
    d'.image options r mode = d.image options r mode := by
  rw [Draft.image_eq hr, Draft.image_eq (h.typeOf? hr)]

end Extends

/-! ### Filling in a definition -/

theorem types_define (d : Draft) (name : String) (definition : TypeDefinition) :
    (d.define name definition).types =
      d.types.map fun u => if u.name = name then { u with definition } else u := by
  simp only [types, define, List.map_map]
  refine List.map_congr_left fun c _ => ?_
  simp only [Function.comp_apply]
  split <;> rfl

theorem names_define (d : Draft) (name : String) (definition : TypeDefinition) :
    (d.define name definition).types.map NamedType.name = d.types.map NamedType.name := by
  rw [types_define, List.map_map]
  refine List.map_congr_left fun u _ => ?_
  simp only [Function.comp_apply]
  split <;> rfl

@[simp] theorem at?_define (d : Draft) (name : String) (definition : TypeDefinition) (slot : Nat)
    (mode : Mode) : (d.define name definition).at? slot mode = d.at? slot mode := rfl

/-- Another entry of the table is left as it is. -/
theorem mem_types_define_of_ne {name : String} {definition : TypeDefinition} {u : NamedType}
    (hu : u ∈ d.types) (hne : u.name ≠ name) : u ∈ (d.define name definition).types := by
  rw [types_define]
  exact List.mem_map.mpr ⟨u, hu, if_neg hne⟩

theorem mem_types_define_self {definition : TypeDefinition} {u : NamedType} (hu : u ∈ d.types) :
    { u with definition } ∈ (d.define u.name definition).types := by
  rw [types_define]
  exact List.mem_map.mpr ⟨u, hu, if_pos rfl⟩

/-- What a draft knows of kinds of types, and of what slots have become, decides what it knows of
types. -/
theorem typeOf?_congr (hat : ∀ slot mode, d'.at? slot mode = d.at? slot mode)
    (hscalar : ∀ n, d'.isScalar n = d.isScalar n) (hdate : dateType ∈ d'.types ↔ dateType ∈ d.types) :
    d'.typeOf? options mode r = d.typeOf? options mode r := by
  induction r with
  | primitive p => simp only [typeOf?, hscalar]
  | array element ih => simp only [typeOf?, ih]
  | untypedArray | foreign => rfl
  | date => simp only [typeOf?, hdate]
  | node slot => simp only [typeOf?, hat]

/-- The kinds of a table in which one definition is replaced by another of its kind. -/
theorem claim?_define_any {f : TypeDefinition → Bool} {name : String} {definition : TypeDefinition}
    (hkind : ∀ u ∈ d.types, u.name = name → f u.definition = f definition) (n : String) :
    ((d.define name definition).claim? n).any (fun c => f c.type.definition) =
      (d.claim? n).any fun c => f c.type.definition := by
  rw [claim?, define, List.find?_map, claim?]
  have hname : ((fun c : Claim => decide (c.type.name = n)) ∘ fun c : Claim =>
      if c.type.name = name then { c with type := { c.type with definition } } else c) =
        fun c => decide (c.type.name = n) := by
    funext c
    simp only [Function.comp_apply]
    split <;> rfl
  rw [hname]
  cases hc : d.claims.find? fun c => decide (c.type.name = n) with
  | none => rfl
  | some c =>
    have hmem := mem_types_of_mem_claims (List.mem_of_find?_eq_some hc)
    simp only [Option.map_some, Option.any_some]
    split
    · next hcn => exact (hkind c.type hmem hcn).symm
    · rfl

theorem isScalar_define {name : String} {definition : TypeDefinition}
    (hkind : ∀ u ∈ d.types, u.name = name → u.definition.isScalar = definition.isScalar)
    (n : String) : (d.define name definition).isScalar n = d.isScalar n := by
  rw [isScalar, isScalar, claim?_define_any (f := TypeDefinition.isScalar) hkind]

theorem isObject_define {name : String} {definition : TypeDefinition}
    (hkind : ∀ u ∈ d.types, u.name = name → u.definition.isObject = definition.isObject)
    (n : String) : (d.define name definition).isObject n = d.isObject n := by
  rw [isObject, isObject, claim?_define_any (f := TypeDefinition.isObject) hkind]

/-- **Filling in a definition changes no type**: if the entry is no scalar before and after, all
that was known of the types of the graph is still known, and no more. -/
theorem typeOf?_define {name : String} {definition : TypeDefinition}
    (hold : ∀ u ∈ d.types, u.name = name → u.definition.isScalar = false)
    (hnew : definition.isScalar = false) (r : TypeRef) (mode : Mode) :
    (d.define name definition).typeOf? options mode r = d.typeOf? options mode r := by
  refine typeOf?_congr (fun _ _ => rfl) (isScalar_define fun u hu hn => ?_) ?_
  · rw [hold u hu hn, hnew]
  · rw [types_define, List.mem_map]
    constructor
    · rintro ⟨u, hu, hd⟩
      split at hd
      · have hs := congrArg (fun v : NamedType => v.definition.isScalar) hd
        simp only [hnew] at hs
        cases hs
      · rwa [← hd]
    · intro hd
      refine ⟨dateType, hd, if_neg fun hn => ?_⟩
      have hs := hold dateType hd hn
      cases hs

theorem image_define {name : String} {definition : TypeDefinition}
    (hold : ∀ u ∈ d.types, u.name = name → u.definition.isScalar = false)
    (hnew : definition.isScalar = false) :
    (d.define name definition).image options = d.image options := by
  funext r mode
  rw [image, typeOf?_define hold hnew, image]

/-- A draft in which a definition is filled in that was not there before has still gone on. -/
theorem Extends.define (h : d.Extends d') {name : String}
    (hname : name ∉ d.types.map NamedType.name) (definition : TypeDefinition) :
    d.Extends (d'.define name definition) where
  claims := by
    obtain ⟨more, hmore⟩ := h.claims
    have hold : d.claims.map (fun c => if c.type.name = name then
        { c with type := { c.type with definition } } else c) = d.claims := by
      refine List.map_congr_left (fun c hc => if_neg ?_) |>.trans (List.map_id _)
      rintro rfl
      exact hname (List.mem_map_of_mem (mem_types_of_mem_claims hc))
    rw [Draft.define, ← hmore, List.map_append, hold]
    exact List.prefix_append _ _
  made := h.made
  invented := h.invented

end Draft

end DeclaredSchema
