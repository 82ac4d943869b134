import DeclaredSchema.Proofs.Compilation.Defaults
import DeclaredSchema.Proofs.Extraction.Flattening
import DeclaredSchema.Proofs.Extraction.NullableAlias
import DeclaredSchema.Proofs.Synthesis.Soundness

/-!
# Members of union types

A union type of a compiled schema has one member for each alternative of a union of the file, in
order: the object type made from the interface, or from the object type, that the alternative leads
to. What is different leads to different object types, so the members are distinct exactly if no two
alternatives lead to the same. An alternative that is repeated stays repeated, and so does one that
two unions within a union have in common.

## Main definitions

* `LeadsToKey` — what a type leads to
* `LeadApart` — no two alternatives of a union lead to the same
* `IsUnionType` — the union type of a schema that a union of the file becomes

## Main results

* `isUnionType_of_compile` — the union types of compiled schemas
* `repeats_member` — a union type that has one member twice
-/

namespace DeclaredSchema

open Synthesis Extraction

/-- Under its wrappings and behind other names, the type is the one that has the key: an inline type
at its place, or the name of a declaration. -/
def LeadsToKey (scope : Scope) (n : Node) (key : NodeKey) : Prop :=
  ∃ t, Strips scope n t ∧ keyOf? scope t.node = some key

/-- No two alternatives of the union lead to the same. -/
def LeadApart (scope : Scope) (n : Node) : Prop :=
  (alternatives scope n).Pairwise fun a b => ∀ key, LeadsToKey scope a key → ¬LeadsToKey scope b key

/-- The union `n` of the file becomes the union type of the name with these members, where object
types are called by what leads to them. -/
structure IsUnionType (ctx : ExtractionContext) (schema : Schema) (called : NodeKey → String)
    (name : String) (members : List String) (n : Node) : Prop where
  /-- The union is the body of an alias, whose name the type has, or an inline union, for which the
  name is invented. -/
  made : ∃ key given doc, IsUnionOf ctx key given doc n ∧ (givenName given = some name ∨
    givenName given = none ∧ ∃ k, 0 < k ∧ name = "AnonymousUnion" ++ toString k)
  /-- The members are what the alternatives lead to, in order. -/
  reached : List.Forall₂ (fun m member => ∃ key, LeadsToKey ctx.scope m key ∧ called key = member)
    (alternatives ctx.scope n) members
  /-- What is declared is called by its own name. -/
  declared : ∀ m ∈ alternatives ctx.scope n, ∀ own, LeadsToKey ctx.scope m (.declared own) →
    called (.declared own) = own
  /-- All members are object types. -/
  objects : ∀ member ∈ members, ∃ v ∈ schema.types, v.name = member ∧ v.definition.isObject = true
  /-- The members are distinct exactly if no two alternatives lead to the same. -/
  distinct : members.Nodup ↔ LeadApart ctx.scope n

variable {ctx : ExtractionContext} {scope : Scope} {keys : List NodeKey} {key key' : NodeKey}
  {n : Node} {t : TypeRef} {name : String} {slot : Nat}

/-- Lists whose elements correspond agree on what holds of all pairs. -/
theorem pairwise_iff_of_forall₂ {α β : Type} {R : α → β → Prop} {P : α → α → Prop}
    {Q : β → β → Prop} {xs : List α} {ys : List β} (h : List.Forall₂ R xs ys)
    (hiff : ∀ {x x' y y'}, R x y → R x' y' → (P x x' ↔ Q y y')) :
    xs.Pairwise P ↔ ys.Pairwise Q := by
  induction h with
  | nil => exact iff_of_true .nil .nil
  | cons hr hrest ih =>
    rw [List.pairwise_cons, List.pairwise_cons, ih]
    refine and_congr_left' ⟨fun hall y' hy' => ?_, fun hall x' hx' => ?_⟩
    · obtain ⟨x', hx', hr'⟩ := exists_left_of_forall₂ hrest hy'
      exact (hiff hr hr').mp (hall x' hx')
    · obtain ⟨y', hy', hr'⟩ := exists_of_forall₂ hrest hx'
      exact (hiff hr hr').mpr (hall y' hy')

/-! ### What types lead to -/

/-- A type leads to one thing at most. -/
theorem LeadsToKey.unique (h : LeadsToKey scope n key) (h' : LeadsToKey scope n key') :
    key = key' := by
  obtain ⟨t, ht, hkey⟩ := h
  obtain ⟨t', ht', hkey'⟩ := h'
  obtain rfl := ht.unique ht'
  exact Option.some.inj (hkey.symm.trans hkey')

/-- An alternative that stands for a slot leads to its key. -/
theorem exists_leadsToKey (h : IsAlternative scope keys n (.node slot)) :
    ∃ key, LeadsToKey scope n key ∧ slotIn keys key = some slot := by
  obtain ⟨inner, hstrips, hdenotes⟩ := h
  obtain ⟨key, hkey, hslot⟩ := hdenotes.exists_keyOf?
  exact ⟨key, ⟨inner, hstrips, hkey⟩, hslot⟩

/-! ### Object types -/

theorem TypeDefinition.isObject_of_isScalar {definition : TypeDefinition}
    (h : definition.isScalar = true) : definition.isObject = false := by
  cases definition with
  | scalar => rfl
  | object | inputObject | union | enumeration => cases h

section Finished

variable {g : Graph} {listed : List TypeRef} {options : CompileOptions} {d : Draft}
  {schema : Schema}

/-- Only records used as output have become object types. -/
theorem Synthesis.Finished.exists_record (h : Finished g listed options d schema)
    (ht : d.typeOf? options .output t = some (.named name)) (hobject : d.isObject name = true) :
    ∃ slot, t = .node slot ∧ d.at? slot .output = some name ∧ IsRecordAt g slot := by
  obtain ⟨v, hv, rfl, hkind⟩ := (Draft.isObject_iff h.inv.nodup).mp hobject
  rcases Draft.isScalar_or_at? h.inv.nodup ht with hscalar | ⟨slot, rfl, hn⟩
  · have hother := TypeDefinition.isObject_of_isScalar (h.isScalar_of_mem_types hv hscalar)
    cases hkind.symm.trans hother
  · obtain ⟨s, hs, -, hsettled⟩ := h.settled hn
    obtain ⟨u, hu, hname, hdef⟩ := hsettled.entry
    obtain rfl := Draft.type_unique h.inv.nodup hu hv hname
    cases hfields : u.definition with
    | object fields =>
      obtain ⟨-, ms, hms, -⟩ := members?_of_object (hdef.symm.trans hfields)
      exact ⟨slot, rfl, hn, s, ms, hs, hms⟩
    | scalar | inputObject | union | enumeration =>
      rw [hfields] at hkind
      cases hkind

/-- The object type that is made from what has the key is called by the name. -/
def IsCalled (g : Graph) (keys : List NodeKey) (d : Draft) (key : NodeKey) (name : String) : Prop :=
  ∃ slot, slotIn keys key = some slot ∧ d.at? slot .output = some name ∧ IsRecordAt g slot

/-- What the object type is called that is made from what has the key. -/
def calledBy (keys : List NodeKey) (d : Draft) (key : NodeKey) : String :=
  ((slotIn keys key).bind fun slot => d.at? slot .output).getD ""

theorem IsCalled.eq_calledBy (h : IsCalled g keys d key name) : calledBy keys d key = name := by
  obtain ⟨slot, hslot, hname, -⟩ := h
  rw [calledBy, hslot, Option.bind_some, hname, Option.getD_some]

/-- **No two object types are called the same.** -/
theorem IsCalled.key_eq (h : IsCalled g keys d key name) (h' : IsCalled g keys d key' name)
    (hfinished : Finished g listed options d schema) : key = key' := by
  obtain ⟨slot, hslot, hname, s, ms, hs, hms⟩ := h
  obtain ⟨slot', hslot', hname', -⟩ := h'
  obtain ⟨rfl, -⟩ := hfinished.inv.distinct hname hs (isModeless_of_members? hms) hname'
  exact Option.some.inj ((getElem?_of_slotIn hslot).symm.trans (getElem?_of_slotIn hslot'))

/-- What is declared is called by its own name. -/
theorem IsCalled.eq_of_declared {r : Registry} {own : String}
    (h : IsCalled r.graph r.keys d (.declared own) name) (hcomplete : IsComplete ctx r)
    (hfinished : Finished r.graph listed options d schema) : name = own := by
  obtain ⟨slot, hslot, hname, s, ms, hs, hms⟩ := h
  obtain ⟨shape, hshape, hfills⟩ := hcomplete.filled (getElem?_of_slotIn hslot) id
  obtain rfl : s = shape :=
    Option.some.inj (hs.symm.trans (congrArg (Option.map Descriptor.shape) hshape))
  obtain ⟨s', hs', hnamed, -⟩ := hfinished.settled hname
  obtain rfl := Option.some.inj (hs.symm.trans hs')
  have hown : ownName? .output s = some own := by
    generalize hkey : NodeKey.declared own = key at hfills
    cases hfills with
    | interface | objectAlias =>
      rw [NodeKey.declared.inj hkey]
      exact congrArg some String.append_empty
    | enumeration | unionAlias | textAlias => cases hms
    | object | union => cases hkey
  rcases hnamed.name with hname' | ⟨k, hnone, -⟩
  · exact Option.some.inj (hname'.symm.trans hown)
  · cases hown.symm.trans hnone

/-- The object type that the type leads to is called by the name. -/
def Becomes (scope : Scope) (g : Graph) (keys : List NodeKey) (d : Draft) (n : Node)
    (name : String) : Prop :=
  ∃ key, LeadsToKey scope n key ∧ IsCalled g keys d key name

/-- An alternative that has become an object type leads to it. -/
theorem becomes_of_isAlternative (hfinished : Finished g listed options d schema)
    (hn : IsAlternative scope keys n t) (ht : d.typeOf? options .output t = some (.named name))
    (hobject : d.isObject name = true) : Becomes scope g keys d n name := by
  obtain ⟨slot, rfl, hname, hrecord⟩ := hfinished.exists_record ht hobject
  obtain ⟨key, hleads, hslot⟩ := exists_leadsToKey hn
  exact ⟨key, hleads, slot, hslot, hname, hrecord⟩

/-- **Members are distinct** exactly if no two alternatives lead to the same. -/
theorem nodup_iff_leadApart (hfinished : Finished g listed options d schema)
    {members : List String}
    (h : List.Forall₂ (Becomes scope g keys d) (alternatives scope n) members) :
    members.Nodup ↔ LeadApart scope n := by
  refine (pairwise_iff_of_forall₂ h ?_).symm
  rintro m m' member member' ⟨key, hleads, hcalled⟩ ⟨key', hleads', hcalled'⟩
  constructor
  · rintro hapart rfl
    obtain rfl := hcalled.key_eq hcalled' hfinished
    exact hapart key hleads hleads'
  · intro hne shared hm hm'
    obtain rfl := hleads.unique hm
    obtain rfl := hleads'.unique hm'
    exact hne (hcalled.eq_calledBy.symm.trans hcalled'.eq_calledBy)

end Finished

/-- A union that does not consist of texts has the name that is given, or an invented one. -/
theorem name_of_union {given doc : Option String} {types : List TypeRef} {mode : Mode}
    (htexts : isTexts types = false) (h : IsNameOf mode (.union given doc types) name) :
    givenName given = some name ∨
      givenName given = none ∧ ∃ k, 0 < k ∧ name = "AnonymousUnion" ++ toString k := by
  have hown : ownName? mode (.union given doc types) = givenName given := by
    rw [ownName?, htexts]
    rfl
  rcases h with h | ⟨k, hnone, hpos, hname⟩
  · exact .inl (hown.symm.trans h)
  · exact .inr ⟨hown.symm.trans hnone, k, hpos, hname⟩

/-- **The union types of compiled schemas.** Each is made from a union of the file, and has one
member for each of its alternatives, in order. The members are distinct exactly if no two
alternatives lead to the same. -/
theorem isUnionType_of_compile {label source : String} {options : CompileOptions} {schema : Schema}
    (h : compile label source options = .ok schema) :
    ∃ file, SourceUnit.parse source = .ok file ∧ ∃ called : NodeKey → String,
      ∀ u ∈ schema.types, ∀ members, u.definition = .union members →
        ∃ n, IsUnionType ⟨file.declarations, options.unionsAsEnums⟩ schema called u.name members
          n := by
  obtain ⟨file, g, d, hparse, hextract, hsynthesis⟩ := exists_of_compile h
  have hfinished := finished_of_run hsynthesis
  obtain ⟨r, hrun, rfl⟩ := yields_of_extract hextract
  obtain ⟨-, hcomplete, -⟩ := isComplete_of_run hrun
  refine ⟨file, hparse, calledBy r.keys d, fun u hu members hunion => ?_⟩
  rcases hfinished.mem_types_cases (hfinished.types ▸ hu) with
    hscalar | ⟨slot, mode, s, -, hat, hs, hsettled, himage⟩
  · rw [hunion] at hscalar
    cases hscalar
  obtain ⟨given, doc, types, rfl, htexts, rfl⟩ := alternatives_of_union (himage.symm.trans hunion)
  obtain ⟨x, hx, hshape⟩ := Option.map_eq_some_iff.mp hs
  obtain ⟨key, -, hfills⟩ := hcomplete.exists_key hx
  rw [hshape] at hfills
  obtain ⟨n, hn, hall⟩ := hfills.of_union
  obtain ⟨s', hs', hnamed, -⟩ := hfinished.settled hat
  obtain rfl := Option.some.inj (hs.symm.trans hs')
  -- every alternative has become an object type
  have hobject := hsettled.alternatives given doc types rfl htexts
  have hbecome : List.Forall₂ (Becomes file.declarations r.graph r.keys d)
      (alternatives file.declarations n)
      (types.map fun t => (d.image options t .output).baseName) := by
    rw [List.forall₂_map_right_iff]
    refine ((List.forall₂_and_left _ _).mpr ⟨hobject, hall.flip⟩).flip.imp ?_
    rintro m t ⟨⟨name, ht, hobject⟩, hm⟩
    rw [Draft.image_eq ht]
    exact becomes_of_isAlternative hfinished hm ht hobject
  refine ⟨n, ⟨key, given, doc, hn, name_of_union htexts hnamed.name⟩, hbecome.imp ?_, ?declared,
    fun member hmember => hfinished.alternatives hu hunion hmember,
    nodup_iff_leadApart hfinished hbecome⟩
  case declared =>
    intro m hm own hleads
    obtain ⟨member, -, key', hleads', hcalled⟩ := exists_of_forall₂ hbecome hm
    obtain rfl := hleads'.unique hleads
    rw [hcalled.eq_calledBy]
    exact hcalled.eq_of_declared hcomplete hfinished
  · rintro m member ⟨key', hleads, hcalled⟩
    exact ⟨key', hleads, hcalled.eq_calledBy⟩

/-! ### Two unions of two names -/

/-- A union of two interfaces. -/
def pairText : String := "interface Query { u: U }
interface A { x: string }
interface B { x: string }
type U = A | B"

/-- An object type with one text. -/
def textObject (name : String) : NamedType :=
  ⟨name, none, .object [⟨"x", .nonNull (.named "String"), [], none⟩]⟩

def pairSchema : Schema where
  query := some "Query"
  mutation := none
  types := [⟨"Query", none, .object [⟨"u", .nonNull (.named "U"), [], none⟩]⟩,
    ⟨"U", none, .union ["A", "B"]⟩, textObject "A", textObject "B"]

set_option maxRecDepth 4000 in
theorem isUnionType_of_compile_pairText : compile "a.ts" pairText .standard = .ok pairSchema ∧
    ∃ file, SourceUnit.parse pairText = .ok file ∧ ∃ called n,
      IsUnionType ⟨file.declarations, false⟩ pairSchema called "U" ["A", "B"] n ∧
        LeadApart file.declarations n := by
  have hcompile : compile "a.ts" pairText .standard = .ok pairSchema := by cbv
  obtain ⟨file, hparse, called, hall⟩ := isUnionType_of_compile hcompile
  obtain ⟨n, hn⟩ := hall ⟨"U", none, .union ["A", "B"]⟩ (.tail _ (.head _)) _ rfl
  exact ⟨hcompile, file, hparse, called, n, hn, hn.distinct.mp (by decide)⟩

/-- A union of an interface and itself. -/
def repeatedText : String := "interface Query { u: U }
interface A { x: string }
type U = A | A"

def repeatedSchema : Schema where
  query := some "Query"
  mutation := none
  types := [⟨"Query", none, .object [⟨"u", .nonNull (.named "U"), [], none⟩]⟩,
    ⟨"U", none, .union ["A", "A"]⟩, textObject "A"]

set_option maxRecDepth 4000 in
/-- **Repeated members.** An alternative that is written twice is a member twice. -/
theorem repeats_member : compile "a.ts" repeatedText .standard = .ok repeatedSchema ∧
    ∃ u ∈ repeatedSchema.types, ∃ members, u.definition = .union members ∧ ¬members.Nodup := by
  have hcompile : compile "a.ts" repeatedText .standard = .ok repeatedSchema := by cbv
  exact ⟨hcompile, _, .tail _ (.head _), _, rfl, by decide⟩

end DeclaredSchema
