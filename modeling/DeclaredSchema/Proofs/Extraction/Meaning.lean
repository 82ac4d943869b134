import DeclaredSchema.Extraction
import DeclaredSchema.Proofs.Extraction.Place
import DeclaredSchema.Proofs.KeyedList
import Mathlib.Data.List.Forall2

/-!
# What declarations stand for

A type of a declaration file stands for a type of the table once every named or inline type has its
slot. Which slot that is, a table of keys says; what stands in the slot is the same for whoever asks,
so it is said here for the keys alone, without any order of resolutions.

`Denotes scope keys n raw t` says that the stripped type `n`, named `raw` on the way, stands for `t`
under the keys. It is a relation and not a function, since a type such as an alias of an array of
itself stands for nothing.

## Main definitions

* `parts`, `needs`, `declarationNeeds`, `Resolved` — the types that are resolved
* `Denotes` — what a type stands for
* `IsMember`, `IsAlternative` — what members and alternatives stand for
* `Fills` — the shapes that complete a slot

## Main results

* `Denotes.unique` — a type stands for one thing
* `Resolved.isAt`, `Resolved.isBare` — types that are resolved are known by their sites, and are
  stripped
-/

namespace DeclaredSchema

namespace Extraction

/-! ### The parts of a member -/

/-- The parameters of a member that is a method. -/
def parametersOf (p : Property TypeExpr) : List (Parameter TypeExpr) :=
  match p.type with
  | .function parameters _ => parameters
  | _ => []

/-- The type of a member besides its parameters. -/
def resultOf (s : Signature) : Node :=
  match s.property.type with
  | .function _ result => ⟨s.site.child 0, result⟩
  | type => ⟨s.site, type⟩

/-- The type and the literal of `Default<Type, literal>`, and a type without a default as it is. -/
def splitDefaultOf (n : Node) : Node × Option Literal :=
  match n.expr with
  | .reference name [type, .literal value] _ =>
    if name = defaultName then (⟨n.site.child 0, type⟩, some value) else (n, none)
  | _ => (n, none)

/-- The type of a member besides its parameters and its default. -/
def typeOf (s : Signature) : Node := (splitDefaultOf (resultOf s)).1

def defaultOf (s : Signature) : Option Literal := (splitDefaultOf (resultOf s)).2

/-- The types of a member: of its only parameter, and its own. -/
def parts (s : Signature) : List Node :=
  match parametersOf s.property with
  | [p] => [⟨s.site.child 1, p.type⟩, typeOf s]
  | _ => [typeOf s]

/-! ### The types that are resolved -/

variable (ctx : ExtractionContext)

/-- The types within a stripped type that are resolved with it. -/
def needs (n : Node) : List Node :=
  match n.expr with
  | .array element => [⟨n.site.child 0, element⟩]
  | .object ps _ => (n.site.signatures "" ps).flatMap parts
  | .union _ => alternatives ctx.scope n
  | .reference name [element] _ =>
    if (ctx.scope.find? name).isNone && arrayNames.contains name then [⟨n.site.child 0, element⟩]
    else []
  | _ => []

/-- Whether a union becomes an enumeration because it consists of texts. -/
def isTextEnumeration (ns : List Node) : Bool :=
  ctx.unionsAsEnums && ns.all fun n => n.expr.text?.isSome

/-- The types that are resolved with a step of a lineage. -/
def stepParts : LineageStep → List Node
  | .member s => parts s
  | _ => []

/-- The types that are resolved with a declaration. -/
def declarationNeeds : Declaration → List Node
  | .interface d => (lineage ctx.scope d).flatMap stepParts
  | .enumeration _ => []
  | .typeAlias d =>
    if namesShape ctx.scope d then
      match alternatives ctx.scope d.node with
      | [⟨site, .object ps _⟩] => (site.signatures d.name ps).flatMap parts
      | ns => if isTextEnumeration ctx ns then [] else ns
    else []

/-- The stripped types that are resolved: those of the declarations, and those within them. -/
inductive Resolved : Node → Prop
  | declared {d : Declaration} {m : Node} {t : Stripped} (hd : d ∈ ctx.scope)
      (hm : m ∈ declarationNeeds ctx d) (ht : Strips ctx.scope m t) : Resolved t.node
  | nested {n m : Node} {t : Stripped} (hn : Resolved n) (hm : m ∈ needs ctx n)
      (ht : Strips ctx.scope m t) : Resolved t.node

/-! ### What types stand for -/

/-- The slot of a key in a table of keys. -/
def slotIn (keys : List NodeKey) (key : NodeKey) : Option Nat := keys.findIdx? (· = key)

variable (scope : Scope) (keys : List NodeKey)

/-- The stripped type `n`, named `raw` on the way, stands for a type of the table. -/
inductive Denotes : Node → Option String → TypeRef → Prop
  | keyword {s : Site} {word : TypeKeyword} {raw : Option String}
      (h : word = .string ∨ word = .number ∨ word = .boolean) :
      Denotes ⟨s, .keyword word⟩ raw (.primitive ⟨word.text, raw.getD word.text, none⟩)
  | literal {s : Site} {value : Literal} {raw : Option String} :
      Denotes ⟨s, .literal value⟩ raw (literalType raw value)
  | array {s : Site} {element : TypeExpr} {raw : Option String} {t : Stripped} {r : TypeRef}
      (ht : Strips scope ⟨s.child 0, element⟩ t) (h : Denotes t.node t.raw r) :
      Denotes ⟨s, .array element⟩ raw (.array r)
  | object {s : Site} {ps : List (Property TypeExpr)} {position : Position} {raw : Option String}
      {slot : Nat} (h : slotIn keys (.inline s) = some slot) :
      Denotes ⟨s, .object ps position⟩ raw (.node slot)
  | union {s : Site} {es : List TypeExpr} {raw : Option String} {slot : Nat}
      (h : slotIn keys (.inline s) = some slot) : Denotes ⟨s, .union es⟩ raw (.node slot)
  | declared {s : Site} {name : String} {position : Position} {raw : Option String}
      {d : Declaration} {slot : Nat} (hd : scope.find? name = some d)
      (h : slotIn keys (.declared name) = some slot) :
      Denotes ⟨s, .reference name [] position⟩ raw (.node slot)
  | arrayName {s : Site} {name : String} {element : TypeExpr} {position : Position}
      {raw : Option String} {t : Stripped} {r : TypeRef} (hd : scope.find? name = none)
      (hname : arrayNames.contains name = true) (ht : Strips scope ⟨s.child 0, element⟩ t)
      (h : Denotes t.node t.raw r) :
      Denotes ⟨s, .reference name [element] position⟩ raw (.array r)
  | date {s : Site} {position : Position} {raw : Option String}
      (hd : scope.find? dateName = none) : Denotes ⟨s, .reference dateName [] position⟩ raw .date
  | openScalar {s : Site} {name : String} {position : Position} {raw : Option String}
      (hd : scope.find? name = none) (hdate : name ≠ dateName) :
      Denotes ⟨s, .reference name [] position⟩ raw (openScalar name)

/-- What an alternative of a union, or the element of an array, stands for. -/
def IsAlternative (n : Node) (r : TypeRef) : Prop :=
  ∃ t, Strips scope n t ∧ Denotes scope keys t.node t.raw r

variable (records : Nat → Prop)

/-- The arguments of a method are a record, given by its slot. -/
def IsBag (s : Signature) (bag : Option Nat) : Prop :=
  match parametersOf s.property with
  | [] => bag = none
  | [p] => ∃ slot, IsAlternative scope keys ⟨s.site.child 1, p.type⟩ (.node slot) ∧ records slot ∧
      bag = some slot
  | _ => False

/-- What a member stands for. -/
structure IsMember (s : Signature) (m : Member) : Prop where
  name : m.name = s.property.name
  doc : m.doc = s.property.doc
  optional : m.optional = s.property.optional
  type : ∃ t, Strips scope (typeOf s) t ∧ Denotes scope keys t.node t.raw m.type ∧
    m.nullableType = t.nullable
  default : m.default = defaultOf s
  arguments : IsBag scope keys records s m.arguments

/-- What a step of a lineage stands for. -/
def IsInherited (step : LineageStep) (m : Member) : Prop :=
  ∃ s, step = .member s ∧ IsMember scope keys records s m

/-- What a member of an enumeration stands for. -/
def IsValueOf (d : Enumeration) (e : EnumEntry) (r : TypeRef) : Prop :=
  ∃ text, e.value = some (.str text) ∧
    r = .primitive ⟨LiteralKind.string.keyword, s!"{d.name}.{e.name}", some (.str text)⟩

/-- The shapes that complete the slot of a key; `asked` are the inline types that have slots. -/
inductive Fills (asked : Node → Prop) : NodeKey → Shape → Prop
  | interface {d : Interface} {ms : List Member} (hd : .interface d ∈ ctx.scope)
      (h : List.Forall₂ (IsInherited ctx.scope keys records) (lineage ctx.scope d) ms) :
      Fills asked (.declared d.name) (.record d.name d.doc (lastOfEach Member.name ms))
  | enumeration {d : Enumeration} {values : List TypeRef} (hd : .enumeration d ∈ ctx.scope)
      (h : List.Forall₂ (IsValueOf d) d.members values) :
      Fills asked (.declared d.name) (.enumeration d.name d.doc values)
  | objectAlias {d : Alias} {site : Site} {ps : List (Property TypeExpr)} {position : Position}
      {ms : List Member} (hd : .typeAlias d ∈ ctx.scope) (hshape : namesShape ctx.scope d = true)
      (hobject : alternatives ctx.scope d.node = [⟨site, .object ps position⟩])
      (h : List.Forall₂ (IsMember ctx.scope keys records) (site.signatures d.name ps) ms) :
      Fills asked (.declared d.name) (.record d.name d.doc ms)
  | unionAlias {d : Alias} {rs : List TypeRef} (hd : .typeAlias d ∈ ctx.scope)
      (hshape : namesShape ctx.scope d = true)
      (hunion : 2 ≤ (alternatives ctx.scope d.node).length)
      (htexts : isTextEnumeration ctx (alternatives ctx.scope d.node) = false)
      (h : List.Forall₂ (IsAlternative ctx.scope keys) (alternatives ctx.scope d.node) rs) :
      Fills asked (.declared d.name) (.union (some d.name) d.doc rs)
  | textAlias {d : Alias} (hd : .typeAlias d ∈ ctx.scope)
      (hshape : namesShape ctx.scope d = true)
      (htexts : isTextEnumeration ctx (alternatives ctx.scope d.node) = true) :
      Fills asked (.declared d.name) (.enumeration d.name d.doc
        (((alternatives ctx.scope d.node).filterMap fun n => n.expr.literal?).map
          (literalType none)))
  | object {s : Site} {ps : List (Property TypeExpr)} {position : Position} {owner : String}
      {ms : List Member} (hasked : asked ⟨s, .object ps position⟩)
      (h : List.Forall₂ (IsMember ctx.scope keys records) (s.signatures owner ps) ms) :
      Fills asked (.inline s) (.inlineRecord s!"{owner}, line {position.line}" none ms)
  | union {s : Site} {es : List TypeExpr} {rs : List TypeRef} (hasked : asked ⟨s, .union es⟩)
      (h : List.Forall₂ (IsAlternative ctx.scope keys) (alternatives ctx.scope ⟨s, .union es⟩)
        rs) : Fills asked (.inline s) (.union none none rs)

/-! ### A type stands for one thing -/

variable {ctx scope keys records} {n : Node} {raw : Option String} {r r' : TypeRef}

/-- **A type stands for one thing.** -/
theorem Denotes.unique (h : Denotes scope keys n raw r) (h' : Denotes scope keys n raw r') :
    r = r' := by
  induction h generalizing r' with
  | keyword => cases h'; rfl
  | literal => cases h'; rfl
  | array ht _ ih =>
    cases h' with
    | array ht' h' =>
      obtain rfl := ht.unique ht'
      rw [ih h']
  | object h =>
    cases h' with
    | object h' => rw [Option.some.inj (h.symm.trans h')]
  | union h =>
    cases h' with
    | union h' => rw [Option.some.inj (h.symm.trans h')]
  | declared hd h =>
    cases h' with
    | declared hd' h' => rw [Option.some.inj (h.symm.trans h')]
    | date hd' => rw [hd] at hd'; cases hd'
    | openScalar hd' => rw [hd] at hd'; cases hd'
  | arrayName hd hname ht _ ih =>
    cases h' with
    | arrayName hd' hname' ht' h' =>
      obtain rfl := ht.unique ht'
      rw [ih h']
  | date hd =>
    cases h' with
    | declared hd' h' => rw [hd] at hd'; cases hd'
    | date => rfl
    | openScalar hd' hdate => exact absurd rfl hdate
  | openScalar hd hdate =>
    cases h' with
    | declared hd' h' => rw [hd] at hd'; cases hd'
    | date => exact absurd rfl hdate
    | openScalar => rfl

/-! ### More keys -/

theorem slotIn_of_isPrefix {keys keys' : List NodeKey} (hkeys : keys <+: keys') {key : NodeKey}
    {slot : Nat} (h : slotIn keys key = some slot) : slotIn keys' key = some slot := by
  obtain ⟨more, rfl⟩ := hkeys
  rw [slotIn, List.findIdx?_append]
  rw [slotIn] at h
  rw [h, Option.some_or]

theorem Denotes.mono {keys' : List NodeKey} (hkeys : keys <+: keys')
    (h : Denotes scope keys n raw r) : Denotes scope keys' n raw r := by
  induction h with
  | keyword h => exact .keyword h
  | literal => exact .literal
  | array ht _ ih => exact .array ht ih
  | object h => exact .object (slotIn_of_isPrefix hkeys h)
  | union h => exact .union (slotIn_of_isPrefix hkeys h)
  | declared hd h => exact .declared hd (slotIn_of_isPrefix hkeys h)
  | arrayName hd hname ht _ ih => exact .arrayName hd hname ht ih
  | date hd => exact .date hd
  | openScalar hd hdate => exact .openScalar hd hdate

section Mono

variable {keys' : List NodeKey} {records' : Nat → Prop} (hkeys : keys <+: keys')
  (hrecords : ∀ slot, records slot → records' slot)

include hkeys

theorem IsAlternative.mono (h : IsAlternative scope keys n r) : IsAlternative scope keys' n r := by
  obtain ⟨t, ht, hr⟩ := h
  exact ⟨t, ht, hr.mono hkeys⟩

include hrecords

theorem IsBag.mono {s : Signature} {bag : Option Nat} (h : IsBag scope keys records s bag) :
    IsBag scope keys' records' s bag := by
  unfold IsBag at h ⊢
  split at h
  · exact h
  · obtain ⟨slot, hbag, hrecord, heq⟩ := h
    exact ⟨slot, hbag.mono hkeys, hrecords slot hrecord, heq⟩
  · exact h

theorem IsMember.mono {s : Signature} {m : Member} (h : IsMember scope keys records s m) :
    IsMember scope keys' records' s m where
  name := h.name
  doc := h.doc
  optional := h.optional
  type := by
    obtain ⟨t, ht, hr, hnullable⟩ := h.type
    exact ⟨t, ht, hr.mono hkeys, hnullable⟩
  default := h.default
  arguments := h.arguments.mono hkeys hrecords

theorem IsInherited.mono {step : LineageStep} {m : Member}
    (h : IsInherited scope keys records step m) : IsInherited scope keys' records' step m := by
  obtain ⟨s, hs, hm⟩ := h
  exact ⟨s, hs, hm.mono hkeys hrecords⟩

/-- What completes a slot still does when more slots are taken. -/
theorem Fills.mono {asked : Node → Prop} {key : NodeKey} {shape : Shape}
    (h : Fills ctx keys records asked key shape) : Fills ctx keys' records' asked key shape := by
  cases h with
  | interface hd h => exact .interface hd (h.imp fun _ _ hm => hm.mono hkeys hrecords)
  | enumeration hd h => exact .enumeration hd h
  | objectAlias hd hshape hobject h =>
    exact .objectAlias hd hshape hobject (h.imp fun _ _ hm => hm.mono hkeys hrecords)
  | unionAlias hd hshape hunion htexts h =>
    exact .unionAlias hd hshape hunion htexts (h.imp fun _ _ hr => hr.mono hkeys)
  | textAlias hd hshape htexts => exact .textAlias hd hshape htexts
  | object hasked h => exact .object hasked (h.imp fun _ _ hm => hm.mono hkeys hrecords)
  | union hasked h => exact .union hasked (h.imp fun _ _ hr => hr.mono hkeys)

end Mono

/-! ### Types that are resolved -/

theorem isAt_splitDefaultOf (h : IsAt scope n) : IsAt scope (splitDefaultOf n).1 := by
  obtain ⟨s, e⟩ := n
  unfold splitDefaultOf
  split
  · next name type value position he =>
    cases he
    split
    · exact exprAt?_child h
    · exact h
  · exact h

/-- The types of a member are its own and that of its only parameter. -/
theorem mem_parts {s : Signature} {m : Node} : m ∈ parts s ↔ m = typeOf s ∨
    ∃ p, parametersOf s.property = [p] ∧ m = ⟨s.site.child 1, p.type⟩ := by
  unfold parts
  split
  · next p hp => simp [hp, or_comm]
  · next hother =>
    rw [List.mem_singleton, or_iff_left]
    rintro ⟨p, hp, -⟩
    exact hother p hp

theorem isAt_of_mem_parts {s : Signature} (h : IsAt scope ⟨s.site, s.property.type⟩) {m : Node}
    (hm : m ∈ parts s) : IsAt scope m := by
  have hresult : IsAt scope (typeOf s) := by
    refine isAt_splitDefaultOf ?_
    unfold resultOf
    split
    · next parameters result htype =>
      rw [htype] at h
      exact exprAt?_child h
    · exact h
  obtain rfl | ⟨p, hp, rfl⟩ := mem_parts.mp hm
  · exact hresult
  · unfold parametersOf at hp
    split at hp
    · next parameters result htype =>
      rw [htype, hp] at h
      exact exprAt?_child h
    · cases hp

theorem isAt_of_mem_needs (h : IsAt ctx.scope n) {m : Node} (hm : m ∈ needs ctx n) :
    IsAt ctx.scope m := by
  obtain ⟨s, e⟩ := n
  unfold needs at hm
  split at hm
  · next element he =>
    cases he
    rw [List.mem_singleton.mp hm]
    exact exprAt?_child h
  · next ps position he =>
    cases he
    obtain ⟨sig, hsig, hm⟩ := List.mem_flatMap.mp hm
    exact isAt_of_mem_parts (isAt_of_mem_signatures h hsig) hm
  · exact isAt_of_mem_alternatives h hm
  · next name element position he =>
    cases he
    split at hm
    · rw [List.mem_singleton.mp hm]
      exact exprAt?_child h
    · cases hm
  · cases hm

/-- The declarations of a scope are found by their names. -/
def IsUnambiguous (scope : Scope) : Prop := ∀ d ∈ scope, scope.find? d.name = some d

/-- Declarations of one name in one scope are one declaration. -/
theorem IsUnambiguous.eq {d d' : Declaration} (hscope : IsUnambiguous scope) (hd : d ∈ scope)
    (hd' : d' ∈ scope) (hname : d.name = d'.name) : d = d' :=
  Option.some.inj ((hscope d hd).symm.trans (hname ▸ hscope d' hd'))

theorem IsUnambiguous.alias?_of_mem (hscope : IsUnambiguous scope) {d : Alias}
    (hd : .typeAlias d ∈ scope) : scope.alias? d.name = some d := by
  have hfind : scope.find? d.name = some (.typeAlias d) := hscope _ hd
  rw [Scope.alias?, hfind]

theorem IsUnambiguous.interface?_of_mem (hscope : IsUnambiguous scope) {d : Interface}
    (hd : .interface d ∈ scope) : scope.interface? d.name = some d := by
  have hfind : scope.find? d.name = some (.interface d) := hscope _ hd
  rw [Scope.interface?, hfind]

theorem isAt_of_mem_declarationNeeds (hscope : IsUnambiguous ctx.scope) {d : Declaration}
    (hd : d ∈ ctx.scope) {m : Node} (hm : m ∈ declarationNeeds ctx d) : IsAt ctx.scope m := by
  have hfind := hscope d hd
  cases d with
  | interface d =>
    obtain ⟨step, hstep, hm⟩ := List.mem_flatMap.mp hm
    cases step with
    | member sig => exact isAt_of_mem_parts (isAt_of_mem_lineage hfind hstep) hm
    | inheritsItself | notABase => cases hm
  | enumeration d => cases hm
  | typeAlias d =>
    have hnode : IsAt ctx.scope d.node := isAt_body hfind rfl
    simp only [declarationNeeds] at hm
    split at hm
    · split at hm
      · next site ps position hobject =>
        have hat : IsAt ctx.scope ⟨site, .object ps position⟩ :=
          isAt_of_mem_alternatives hnode (hobject ▸ List.mem_singleton_self _)
        obtain ⟨sig, hsig, hm⟩ := List.mem_flatMap.mp hm
        exact isAt_of_mem_parts (isAt_of_mem_signatures hat hsig) hm
      · split at hm
        · cases hm
        · exact isAt_of_mem_alternatives hnode hm
    · cases hm

/-- **Types that are resolved are known by their sites.** -/
theorem Resolved.isAt (hscope : IsUnambiguous ctx.scope) (h : Resolved ctx n) :
    IsAt ctx.scope n := by
  induction h with
  | declared hd hm ht => exact ht.isAt (isAt_of_mem_declarationNeeds hscope hd hm)
  | nested _ hm ht ih => exact ht.isAt (isAt_of_mem_needs ih hm)

theorem Resolved.isBare (h : Resolved ctx n) : IsBare ctx.scope n := by
  cases h with
  | declared _ _ ht => exact ht.isBare
  | nested _ _ ht => exact ht.isBare

end Extraction

end DeclaredSchema
