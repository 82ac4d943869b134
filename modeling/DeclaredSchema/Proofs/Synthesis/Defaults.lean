import DeclaredSchema.Proofs.Extraction.Defaults
import DeclaredSchema.Proofs.Synthesis.Exactness

/-!
# Default values in a schema

The default of an argument or of an input field should be a value of the type that the argument or
the field has in the schema, so that it can be shown there. What it is a value of is decided twice:
by the check of the default, for the type in the table of descriptors, and by the choice of a
scalar, when the type becomes one of the schema.

For a type that has its own slot the two decisions agree: of what can be used as input, only
enumerations and unions of texts admit a default, and these become enumerations and scalars with the
same texts.

## Main definitions

* `Schema.inputValues` — the arguments and input fields of a schema
* `Schema.admitsDefault` — the values of a named type that a literal can be
* `Schema.holdsNumber` — the numbers that are not too large for a named type
* `Schema.IsLeaf` — the types that have values without parts

## Main results

* `Finished.exists_member` — arguments and input fields come from members
* `Finished.admitsDefault_of_node` — defaults of types with their own slots
-/

namespace DeclaredSchema

/-! ### Values of types -/

/-- Whether a literal is a value of a built-in scalar. -/
def BuiltIn.admits : BuiltIn → Literal → Bool
  | int, .int i => isInt32 i
  | float, .int _ => true
  | float, .float x => x.isFinite
  | string, .str _ => true
  | boolean, .bool _ => true
  | id, .str _ => true
  | id, .int _ => true
  | _, _ => false

/-- Whether a literal is not too large a number for a built-in scalar. -/
def BuiltIn.holdsNumber : BuiltIn → Literal → Bool
  | int, .int i => isInt32 i
  | float, .float x => x.isFinite
  | _, _ => true

/-- Whether a literal is a value of a type of the table. Nothing is known of custom scalars. -/
def TypeDefinition.admits : TypeDefinition → Literal → Bool
  | scalar (.custom _), _ => true
  | scalar (.texts texts), .str text => texts.contains text
  | enumeration values, .str text => values.contains text
  | _, _ => false

/-- Whether the values of a type have no parts. -/
def TypeDefinition.isLeaf : TypeDefinition → Bool
  | scalar _ | enumeration _ => true
  | _ => false

theorem TypeDefinition.isLeaf_of_isScalar {definition : TypeDefinition}
    (h : definition.isScalar = true) : definition.isLeaf = true := by
  cases definition with
  | scalar => rfl
  | object | inputObject | union | enumeration => cases h

/-- The input values of a type: the arguments of its fields, or its fields. -/
def TypeDefinition.inputValues : TypeDefinition → List InputValue
  | object fields => fields.flatMap Field.arguments
  | inputObject fields => fields
  | _ => []

namespace Schema

/-- The arguments and input fields of a schema. -/
def inputValues (s : Schema) : List InputValue := s.types.flatMap fun t => t.definition.inputValues

/-- Whether a literal is a value of the type with a name. -/
def admitsDefault (s : Schema) (name : String) (v : Literal) : Bool :=
  match BuiltIn.ofName? name with
  | some b => b.admits v
  | none => (s.type? name).any fun t => t.definition.admits v

/-- Whether a literal is not too large a number for the type with a name. -/
def holdsNumber (name : String) (v : Literal) : Bool :=
  (BuiltIn.ofName? name).all fun b => b.holdsNumber v

/-- The type with the name has values without parts. -/
def IsLeaf (s : Schema) (name : String) : Prop :=
  (BuiltIn.ofName? name).isSome = true ∨ ∃ t, s.type? name = some t ∧ t.definition.isLeaf = true

end Schema

variable {schema : Schema} {name : String} {v : Literal}

namespace Synthesis

variable {g : Graph} {listed : List TypeRef} {options : CompileOptions} {d : Draft}
  {value : InputValue} {m : Member} {slot : Nat} {t : SchemaType}

/-! ### Where defaults come from -/

theorem exists_descriptor_of_shapeAt? {s : Shape} (h : g.shapeAt? slot = some s) :
    ∃ x ∈ g, x.shape = s := by
  obtain ⟨x, hx, rfl⟩ := Option.map_eq_some_iff.mp h
  exact ⟨x, List.mem_of_getElem? hx, rfl⟩

theorem exists_descriptor_of_argument {a : Member} (h : a ∈ argumentMembers g m) :
    ∃ x ∈ g, a ∈ x.shape.members := by
  unfold argumentMembers Graph.membersAt at h
  split at h
  · split at h
    · next x hx => exact ⟨x, List.mem_of_getElem? hx, h⟩
    · cases h
  · cases h

theorem exists_text_of_isTextAmong {texts : List TypeRef}
    (h : isTextAmong (texts.map TypeRef.text?) v = true) :
    ∃ text, v = .str text ∧ text ∈ texts.filterMap TypeRef.text? := by
  unfold isTextAmong at h
  split at h
  · next text htext =>
    rw [List.contains_iff_mem, List.mem_map] at h
    exact ⟨text, Literal.text?_eq_some_iff.mp htext, List.mem_filterMap.mpr h⟩
  · cases h

namespace Finished

variable (h : Finished g listed options d schema)

include h

/-- **Arguments and input fields come from members**, whose types have become types as input. -/
theorem exists_member (hvalue : value ∈ schema.inputValues) :
    ∃ x ∈ g, ∃ m ∈ x.shape.members, value = argumentImage (d.image options) m ∧
      ∃ t, d.typeOf? options .input m.type = some t := by
  obtain ⟨u, hu, hvalue⟩ := List.mem_flatMap.mp hvalue
  rcases h.mem_types_cases (h.types ▸ hu) with hscalar | ⟨slot, mode, s, -, -, hs, hsettled, himage⟩
  · cases hdef : u.definition with
    | scalar kind => rw [hdef] at hvalue; cases hvalue
    | object | inputObject | union | enumeration => rw [hdef] at hscalar; cases hscalar
  cases hdef : u.definition with
  | scalar | union | enumeration => rw [hdef] at hvalue; cases hvalue
  | inputObject values =>
    obtain ⟨rfl, ms, hms, rfl⟩ := members?_of_inputObject (himage.symm.trans hdef)
    rw [hdef] at hvalue
    obtain ⟨m, hm, rfl⟩ := List.mem_map.mp hvalue
    have hvisible := mem_visible_of_mem_counted hm
    obtain ⟨x, hx, rfl⟩ := exists_descriptor_of_shapeAt? hs
    refine ⟨x, hx, m, ?_, rfl, hsettled.known _ _ (.member hs hms hvisible)⟩
    rw [Shape.members, hms]
    exact (mem_visible.mp hvisible).1
  | object fields =>
    obtain ⟨rfl, ms, hms, rfl⟩ := members?_of_object (himage.symm.trans hdef)
    rw [hdef] at hvalue
    obtain ⟨f, hf, hvalue⟩ := List.mem_flatMap.mp hvalue
    obtain ⟨m, hm, rfl⟩ := List.mem_map.mp hf
    obtain ⟨a, ha, rfl⟩ := List.mem_map.mp hvalue
    have hvisible := mem_visible_of_mem_counted ha
    obtain ⟨x, hx, hmem⟩ := exists_descriptor_of_argument (mem_visible.mp hvisible).1
    exact ⟨x, hx, a, hmem, rfl,
      hsettled.known _ _ (.argument hs hms (mem_visible_of_mem_counted hm) hvisible)⟩

/-- The name of a scalar is that of a built-in one or of a scalar of the table. -/
theorem scalar_cases (hname : d.isScalar name = true) : (BuiltIn.ofName? name).isSome = true ∨
    ∃ u, schema.type? name = some u ∧ u.definition.isScalar = true :=
  ((Draft.isScalar_iff h.inv.nodup).mp hname).imp_right fun ⟨u, hu, hname, hscalar⟩ =>
    ⟨u, h.type?_eq_some_iff.mpr ⟨hu, hname⟩, hscalar⟩

theorem ofName?_eq_none {u : NamedType} (hu : schema.type? name = some u) :
    BuiltIn.ofName? name = none := by
  obtain ⟨hmem, rfl⟩ := h.type?_eq_some_iff.mp hu
  exact (h.inv.free u hmem).2

/-- **A type with its own slot** becomes one whose values include what it admitted as a default. -/
theorem admitsDefault_of_node (ht : d.typeOf? options .input (.node slot) = some t)
    (hfits : Extraction.Fits (fun _ => False) g (.node slot) v) :
    ∃ name, t = .named name ∧ BuiltIn.ofName? name = none ∧ schema.IsLeaf name ∧
      schema.admitsDefault name v = true := by
  obtain ⟨name, hn, rfl⟩ := Option.map_eq_some_iff.mp ht
  obtain ⟨s, hs, -, hsettled⟩ := h.settled hn
  obtain ⟨u, hu, rfl, hdef⟩ := hsettled.entry
  have htype : schema.type? u.name = some u := h.type?_eq_some_iff.mpr ⟨hu, rfl⟩
  have hfree := h.ofName?_eq_none htype
  suffices hleaf : u.definition.isLeaf = true ∧ u.definition.admits v = true by
    refine ⟨u.name, rfl, hfree, .inr ⟨u, htype, hleaf.1⟩, ?_⟩
    rw [Schema.admitsDefault, hfree, htype]
    exact hleaf.2
  obtain ⟨x, lead, hx, hoffers, hlead⟩ := hfits
  obtain rfl : x.shape = s := Option.some.inj ((congrArg _ hx).symm.trans hs)
  obtain ⟨text, rfl, hmem⟩ := exists_text_of_isTextAmong hlead
  rw [hdef]
  cases hshape : x.shape with
  | record | inlineRecord => rw [hshape] at hoffers; exact hoffers.elim
  | enumeration name doc values =>
    rw [hshape] at hoffers
    obtain rfl := hoffers
    exact ⟨rfl, List.contains_iff_mem.mpr (List.mem_eraseDups.mpr hmem)⟩
  | union name doc types =>
    rw [hshape] at hoffers
    have htexts := hsettled.wellFormed.inputUnion rfl name doc types hshape
    have hlist : text ∈ types.filterMap TypeRef.text? :=
      ((hoffers.2.1 id).filterMap TypeRef.text?).subset hmem
    rw [definitionImage, if_pos htexts]
    exact ⟨rfl, List.contains_iff_mem.mpr hlist⟩

end Finished

end Synthesis

end DeclaredSchema
