import DeclaredSchema.Compilation
import DeclaredSchema.Proofs.Declaration.Unwrapping
import DeclaredSchema.Proofs.Literal
import DeclaredSchema.Proofs.Synthesis.Defaults
import DeclaredSchema.Sdl.Default

/-!
# Default values in compiled schemas

The check of a default goes by the name under which a primitive type was written, and so does the
choice of its scalar. A file is free to give the names of scalars to types of its own, and so are
the options of a compilation; then the two go different ways. Where they keep the names apart, a
default is a value of its type, with one exception: numbers may be too large for the type, since the
check only knows their kind.

## Main definitions

* `Primitive.IsPlain` — a primitive whose name says what its values are
* `NamesScalars`, `KeepsApart` — no name of a scalar has another meaning
* `HasDefault` — what the default of an argument or of an input field is

## Main results

* `exists_builtIn_of_isPlain` — the values of the scalar of a plain primitive
* `Extraction.Denotes.isPlain` — the primitives of files that keep names apart are plain
* `hasDefault_of_compile` — what defaults are in compiled schemas
* `exceeds_default` — a default that is too large for its type
-/

namespace DeclaredSchema

open Synthesis

/-! ### Plain primitives -/

/-- What is called an integer is a number that is not fixed, and what is called an identifier is a
text, if it is fixed. -/
structure Primitive.IsPlain (p : Primitive) : Prop where
  integer : p.raw = integerName → p.literal = none ∧ p.name = LiteralKind.number.keyword
  identifier : p.raw = identifierName → ∀ v, p.literal = some v → v.kind = .string

variable {p : Primitive} {v : Literal} {options : CompileOptions} {name : String}

theorem LiteralKind.keyword_injective {a b : LiteralKind} (h : a.keyword = b.keyword) : a = b := by
  cases a <;> cases b <;> first | rfl | exact absurd h (by decide)

/-- A primitive that is not called like a scalar admits the literals of its kind. -/
theorem Primitive.kind_of_admits {kind : LiteralKind} (hkind : p.name = kind.keyword)
    (hint : p.raw ≠ integerName) (hid : p.raw ≠ identifierName) (h : p.admits v = true) :
    v.kind = kind := by
  apply LiteralKind.keyword_injective
  rw [← hkind]
  unfold admits at h
  split at h
  · exact beq_iff_eq.mp (Bool.and_eq_true_iff.mp h).1
  · rw [if_neg hint, if_neg hid, if_pos] at h
    · exact beq_iff_eq.mp h
    · rw [hkind]
      cases kind <;> decide

/-- An identifier admits texts and integers. -/
theorem BuiltIn.admits_of_identifier (hplain : p.IsPlain) (hadmits : p.admits v = true)
    (hid : p.raw = identifierName) : BuiltIn.id.admits v = true := by
  suffices hv : v.kind = .string ∨ v.isInteger = true by
    cases v with
    | str | int => rfl
    | float | bool => rcases hv with hv | hv <;> cases hv
  unfold Primitive.admits at hadmits
  split at hadmits
  · next own hown =>
    obtain ⟨-, hagrees⟩ := Bool.and_eq_true_iff.mp hadmits
    exact .inl ((Literal.kind_eq_of_agrees hagrees).trans (hplain.identifier hid own hown))
  · have hint : p.raw ≠ integerName := by rw [hid]; decide
    rw [if_neg hint, if_pos hid, Bool.or_eq_true, beq_iff_eq] at hadmits
    exact hadmits

/-- The built-in scalar of a primitive that is no identifier. -/
theorem BuiltIn.admits_iff_holdsNumber {b : BuiltIn} (hplain : p.IsPlain)
    (hadmits : p.admits v = true) (hid : p.raw ≠ identifierName) (hb : builtIn? p = some b) :
    b.admits v = true ↔ b.holdsNumber v = true := by
  have hkind : p.raw ≠ integerName → ∀ kind : LiteralKind, p.name = kind.keyword → v.kind = kind :=
    fun hint kind hkind => Primitive.kind_of_admits hkind hint hid hadmits
  unfold builtIn? at hb
  split at hb
  · next hnumber =>
    split at hb <;> obtain rfl := Option.some.inj hb
    · next hint =>
      have hraw : p.raw = integerName := hint
      rw [Primitive.admits, (hplain.integer hint).1] at hadmits
      simp only [hraw, if_true] at hadmits
      cases v with
      | int => exact Iff.rfl
      | str | float | bool => cases hadmits
    · next hint =>
      have hv := hkind hint .number hnumber
      cases v with
      | int | float => exact Iff.rfl
      | str | bool => cases hv
  · next hnumber =>
    -- integers are numbers
    have hint : p.raw ≠ integerName := fun hint => hnumber (hplain.integer hint).2
    split at hb
    · next hstring =>
      obtain rfl := Option.some.inj hb
      have hv := hkind hint .string hstring
      cases v with
      | str => exact Iff.rfl
      | int | float | bool => cases hv
    · split at hb
      · next hboolean =>
        obtain rfl := Option.some.inj hb
        have hv := hkind hint .boolean hboolean
        cases v with
        | bool => exact Iff.rfl
        | str | int | float => cases hv
      · cases hb

/-- **The scalar of a plain primitive** has the values that the primitive admits, unless they are
too large. -/
theorem exists_builtIn_of_isPlain (hplain : p.IsPlain) (hadmits : p.admits v = true)
    (hcustom : p.raw = BuiltIn.id.name ∨ customOf? options p = none)
    (hname : scalarNameOf? options p = some name) :
    ∃ b, BuiltIn.ofName? name = some b ∧ (b.admits v = true ↔ b.holdsNumber v = true) := by
  by_cases hid : p.raw = BuiltIn.id.name
  · rw [scalarNameOf?, if_pos hid] at hname
    obtain rfl := Option.some.inj hname
    have hadmitted := BuiltIn.admits_of_identifier hplain hadmits hid
    exact ⟨.id, BuiltIn.ofName?_name _, iff_of_true hadmitted (by cases v <;> rfl)⟩
  · rw [scalarNameOf?, if_neg hid, hcustom.resolve_left hid] at hname
    obtain ⟨b, hb, rfl⟩ := Option.map_eq_some_iff.mp hname
    exact ⟨b, BuiltIn.ofName?_name b, BuiltIn.admits_iff_holdsNumber hplain hadmits hid hb⟩

/-! ### Names of scalars in a file -/

theorem IsInside.exists_alias {scope : Scope} {n : Node} {t : Stripped}
    (h : IsInside scope n none t) (hraw : t.raw = some name) : ∃ d, scope.alias? name = some d ∧
      Relation.ReflTransGen (Unwraps scope) d.node t.node := by
  rcases h.named with hnone | ⟨d, hd, hnamed, hunwraps⟩
  · cases hraw.symm.trans hnone
  · obtain rfl := Option.some.inj (hraw.symm.trans hnamed)
    exact ⟨d, hd, hunwraps⟩

/-- The names of integers and identifiers have no other meaning: an alias of the one name is no
text, no truth value and no fixed value, and an alias of the other is no fixed value but a text. -/
structure NamesScalars (scope : Scope) : Prop where
  integer : ∀ d, scope.alias? integerName = some d → ∀ n,
    Relation.ReflTransGen (Unwraps scope) d.node n →
      n.expr ≠ .keyword .string ∧ n.expr ≠ .keyword .boolean ∧ n.expr.literal? = none
  identifier : ∀ d, scope.alias? identifierName = some d → ∀ n,
    Relation.ReflTransGen (Unwraps scope) d.node n → ∀ v, n.expr.literal? = some v →
      v.kind = .string

namespace Extraction

variable {scope : Scope} {keys : List NodeKey} {records : Nat → Prop} {n : Node} {t : Stripped}
  {s : Signature} {m : Member}

theorem isPlain_openScalar : (p : Primitive) → openScalar name = .primitive p → p.IsPlain := by
  rintro p h
  cases h
  refine ⟨fun hint => ?_, nofun⟩
  have hname : name = integerName := hint
  subst hname
  decide

/-- **The primitives of a file** that gives the names of scalars no other meaning are plain. -/
theorem Denotes.isPlain (hnames : NamesScalars scope) (hinside : IsInside scope n none t)
    (h : Denotes scope keys t.node t.raw (.primitive p)) : p.IsPlain := by
  obtain ⟨node, nullable, raw⟩ := t
  generalize htype : TypeRef.primitive p = type at h
  cases h with
  | @keyword s word _ hword =>
    cases htype
    refine ⟨fun hint => ⟨rfl, ?_⟩, nofun⟩
    cases raw with
    | none =>
      have htext : word.text = integerName := hint
      rcases hword with rfl | rfl | rfl <;> exact absurd htext (by decide)
    | some name =>
      obtain rfl : name = integerName := hint
      obtain ⟨d, hd, hunwraps⟩ := hinside.exists_alias rfl
      obtain ⟨hstring, hboolean, -⟩ := hnames.integer d hd _ hunwraps
      rcases hword with rfl | rfl | rfl
      · exact absurd rfl hstring
      · rfl
      · exact absurd rfl hboolean
  | @literal s value _ =>
    cases htype
    refine ⟨fun hint => ?_, fun hid v hv => ?_⟩
    · cases raw with
      | none => exact absurd hint (value.written_ne_of_isUpper rfl rfl)
      | some name =>
        obtain rfl : name = integerName := hint
        obtain ⟨d, hd, hunwraps⟩ := hinside.exists_alias rfl
        cases (hnames.integer d hd _ hunwraps).2.2
    · obtain rfl := Option.some.inj hv
      cases raw with
      | none => exact absurd hid (value.written_ne_of_isUpper rfl rfl)
      | some name =>
        obtain rfl : name = identifierName := hid
        obtain ⟨d, hd, hunwraps⟩ := hinside.exists_alias rfl
        exact hnames.identifier d hd _ hunwraps value rfl
  | openScalar => exact isPlain_openScalar p htype.symm
  | array | object | union | declared | arrayName | date => cases htype

theorem IsMember.isPlain (hnames : NamesScalars scope) (h : IsMember scope keys records s m)
    (hp : m.type = .primitive p) : p.IsPlain := by
  obtain ⟨t, ht, hdenotes, -⟩ := h.type
  rw [hp] at hdenotes
  exact hdenotes.isPlain hnames ht.isInside

end Extraction

/-! ### Names of scalars in the options -/

/-- No name of a scalar has another meaning: neither in the file, nor for the custom scalars of the
members that have a default. -/
structure KeepsApart (scope : Scope) (g : Graph) (options : CompileOptions) (schema : Schema) : Prop
    extends NamesScalars scope where
  custom : ∀ x ∈ g, ∀ m ∈ x.shape.members, m.default.isSome = true → ∀ p, m.type = .primitive p →
    p.raw ≠ BuiltIn.id.name → ∀ c, customOf? options p = some c →
      BuiltIn.ofName? c.name = none ∧ ∀ u, schema.type? c.name = some u →
        ∃ specifiedBy, u.definition = .scalar (.custom specifiedBy)

/-- Without custom scalars, and without aliases of these names, all names are kept apart. -/
theorem keepsApart_standard {scope : Scope} {g : Graph} {schema : Schema}
    (hint : scope.alias? integerName = none) (hid : scope.alias? identifierName = none) :
    KeepsApart scope g .standard schema where
  integer _ hd := nomatch hint.symm.trans hd
  identifier _ hd := nomatch hid.symm.trans hd
  custom := fun _ _ _ _ _ _ _ _ _ h => nomatch h

/-! ### Defaults in a schema -/

/-- What the default of an argument or of an input field is. -/
structure HasDefault (scope : Scope) (g : Graph) (options : CompileOptions) (schema : Schema)
    (value : InputValue) (v : Literal) (name : String) : Prop where
  /-- The type is that of the name, and absent values may be ruled out. -/
  type : value.type = .named name ∨ value.type = .nonNull (.named name)
  leaf : schema.IsLeaf name
  /-- A value of an enumeration is one of its texts. -/
  choice : ∀ u, schema.type? name = some u → u.definition.isScalar = false →
    schema.admitsDefault name v = true
  /-- If names are kept apart, the default is a value of the type, unless it is too large. -/
  number : KeepsApart scope g options schema →
    (schema.admitsDefault name v = true ↔ Schema.holdsNumber name v = true)

/-- The parts of a compilation of a text that is a file. -/
theorem compile_of_parse {label source : String} {file : SourceUnit}
    (h : SourceUnit.parse source = .ok file) : compile label source options =
      match extract options.unionsAsEnums file with
      | .error e => .error (.extraction e)
      | .ok g => (synthesis g ((List.range g.length).map .node) options).1.mapError .synthesis := by
  rw [compile, compilation, h, extract]
  simp only [compileUnit]
  split
  · next e g hextraction => rw [hextraction]
  · next u g hextraction => rw [hextraction]

theorem exists_of_compile {label source : String} {schema : Schema}
    (h : compile label source options = .ok schema) :
    ∃ file g d, SourceUnit.parse source = .ok file ∧ extract options.unionsAsEnums file = .ok g ∧
      synthesis g ((List.range g.length).map .node) options = (.ok schema, d) := by
  cases hparse : SourceUnit.parse source with
  | error fault =>
    rw [compile, compilation, hparse] at h
    cases h
  | ok file =>
    rw [compile_of_parse hparse] at h
    split at h
    · cases h
    · next g hextract =>
      rcases hsynthesis : synthesis g ((List.range g.length).map .node) options with
        ⟨e | schema', d⟩
      · rw [hsynthesis] at h
        cases h
      · rw [hsynthesis] at h
        obtain rfl : schema' = schema := Except.ok.inj h
        exact ⟨file, g, d, rfl, hextract, hsynthesis⟩

section Finished

variable {scope : Scope} {g : Graph} {listed : List TypeRef} {d : Draft} {schema : Schema}
  {m : Member} {t : SchemaType} {x : Descriptor} {keys : List NodeKey} {records : Nat → Prop}
  {s : Signature}

theorem type_argumentImage (hname : d.typeOf? options .input m.type = some (.named name)) :
    (argumentImage (d.image options) m).type = .named name ∨
      (argumentImage (d.image options) m).type = .nonNull (.named name) := by
  rw [argumentImage, Draft.image_eq hname, wrapped]
  split
  · exact .inl rfl
  · exact .inr rfl

/-- The scalar of a primitive that stands in the table is a custom one or a built-in one. -/
theorem admitsDefault_of_primitive (h : Finished g listed options d schema)
    (hx : x ∈ g) (hm : m ∈ x.shape.members) (hmember : Extraction.IsMember scope keys records s m)
    (hv : m.default = some v) (hp : m.type = .primitive p) (hadmits : p.admits v = true)
    (hname : scalarNameOf? options p = some name) (hscalar : d.isScalar name = true)
    (hapart : KeepsApart scope g options schema) :
    schema.admitsDefault name v = true ↔ Schema.holdsNumber name v = true := by
  have hplain := hmember.isPlain hapart.toNamesScalars hp
  have hbuiltIn : (p.raw = BuiltIn.id.name ∨ customOf? options p = none) →
      (schema.admitsDefault name v = true ↔ Schema.holdsNumber name v = true) := by
    intro hcustom
    obtain ⟨b, hb, hiff⟩ := exists_builtIn_of_isPlain hplain hadmits hcustom hname
    rw [Schema.admitsDefault, Schema.holdsNumber, hb]
    exact hiff
  by_cases hid : p.raw = BuiltIn.id.name
  · exact hbuiltIn (.inl hid)
  cases hcustom : customOf? options p with
  | none => exact hbuiltIn (.inr hcustom)
  | some c =>
    rw [scalarNameOf?, if_neg hid, hcustom] at hname
    obtain rfl : c.name = name := Option.some.inj hname
    obtain ⟨hfree, hdefinition⟩ := hapart.custom x hx m hm (by rw [hv]; rfl) p hp hid c hcustom
    obtain ⟨u, htype, -⟩ := (h.scalar_cases hscalar).resolve_left (by simp [hfree])
    obtain ⟨specifiedBy, hspecified⟩ := hdefinition u htype
    rw [Schema.admitsDefault, Schema.holdsNumber, hfree, htype]
    refine iff_of_true ?_ rfl
    rw [Option.any_some, hspecified]
    rfl

theorem hasDefault_of_finished (h : Finished g listed options d schema) (hx : x ∈ g)
    (hm : m ∈ x.shape.members) (hmember : Extraction.IsMember scope keys records s m)
    (hv : m.default = some v) (ht : d.typeOf? options .input m.type = some t)
    (hfits : Extraction.Fits (fun _ => False) g m.type v) :
    ∃ name, HasDefault scope g options schema (argumentImage (d.image options) m) v name := by
  cases hp : m.type with
  | array | untypedArray | date | foreign => rw [hp] at hfits; exact hfits.elim
  | node slot =>
    rw [hp] at ht hfits
    obtain ⟨name, rfl, hfree, hleaf, hadmits⟩ := h.admitsDefault_of_node ht hfits
    have hholds : Schema.holdsNumber name v = true := by rw [Schema.holdsNumber, hfree]; rfl
    exact ⟨name, type_argumentImage (hp ▸ ht), hleaf, fun _ _ _ => hadmits,
      fun _ => iff_of_true hadmits hholds⟩
  | primitive p =>
    rw [hp] at ht hfits
    simp only [Draft.typeOf?] at ht
    split at ht
    · next name hname =>
      split at ht
      · next hscalar =>
        refine ⟨name, type_argumentImage ?_, ?_, fun u hu hother => ?_, fun hapart => ?_⟩
        · rw [hp, Draft.typeOf?, hname]
          exact if_pos hscalar
        · exact (h.scalar_cases hscalar).imp_right
            (Exists.imp fun _ => And.imp_right TypeDefinition.isLeaf_of_isScalar)
        · rcases h.scalar_cases hscalar with hb | ⟨u', hu', hscalar⟩
          · rw [h.ofName?_eq_none hu] at hb
            cases hb
          · rw [Option.some.inj (hu'.symm.trans hu)] at hscalar
            cases hother.symm.trans hscalar
        · exact admitsDefault_of_primitive h hx hm hmember hv hp hfits hname hscalar hapart
      · cases ht
    · cases ht

end Finished

/-- **Default values in compiled schemas.** A default is always that of a scalar or an enumeration,
and if the type is an enumeration, it is one of its texts. Where names are kept apart, it is a value
of its type, unless it is too large a number for it. -/
theorem hasDefault_of_compile {label source : String} {schema : Schema}
    (h : compile label source options = .ok schema) :
    ∃ file g, SourceUnit.parse source = .ok file ∧ extract options.unionsAsEnums file = .ok g ∧
      ∀ value ∈ schema.inputValues, ∀ v, value.default = some v →
        ∃ name, HasDefault file.declarations g options schema value v name := by
  obtain ⟨file, g, d, hparse, hextract, hsynthesis⟩ := exists_of_compile h
  have hfinished := finished_of_run hsynthesis
  obtain ⟨r, hrun, rfl⟩ := Extraction.yields_of_extract hextract
  obtain ⟨-, hcomplete, -⟩ := Extraction.isComplete_of_run hrun
  have hfit : Extraction.DefaultsFit (fun _ => False) r.graph :=
    (Extraction.moves_of_run hrun).defaultsFit nofun nofun fun d hd => absurd hd List.not_mem_nil
  refine ⟨file, r.graph, hparse, hextract, fun value hvalue v hv => ?_⟩
  obtain ⟨x, hx, m, hm, rfl, t, ht⟩ := hfinished.exists_member hvalue
  obtain ⟨key, hfills⟩ := hcomplete.exists_fills_of_mem hx
  obtain ⟨s, hmember⟩ := hfills.exists_isMember hm
  exact hasDefault_of_finished hfinished hx hm hmember hv ht (hfit x hx m hm v hv)

/-- A method with two integer arguments that have defaults, the second of more than 32 bits. -/
def defaultsText : String :=
  "interface Query { f(a: { n: Default<Int, 3>; m: Default<Int, 3000000000> }): string }"

/-- `Default<Int, i>`, and the positions of the two names. -/
def defaultInteger (i : Int) (position position' : Position) : TypeExpr :=
  .reference "Default" [.reference "Int" [] position', .literal (.int i)] position

def defaultsFile : SourceUnit where
  imports := []
  declarations := [.interface ⟨"Query", [], [⟨"f", .function [⟨"a", .object [
    ⟨"n", defaultInteger 3 ⟨1, 29⟩ ⟨1, 37⟩, false, false, none, ⟨1, 26⟩⟩,
    ⟨"m", defaultInteger 3000000000 ⟨1, 49⟩ ⟨1, 57⟩, false, false, none, ⟨1, 46⟩⟩] ⟨1, 24⟩,
    false⟩] (.keyword .string), false, false, none, ⟨1, 19⟩⟩], none, ⟨1, 11⟩⟩]

def defaultsArgument (name : String) (i : Int) : InputValue :=
  ⟨name, .nonNull (.named "Int"), some (.int i), none⟩

def defaultsSchema : Schema where
  query := some "Query"
  mutation := none
  types := [⟨"Query", none, .object [⟨"f", .nonNull (.named "String"),
    [defaultsArgument "n" 3, defaultsArgument "m" 3000000000], none⟩]⟩]

set_option maxRecDepth 4000 in
theorem parse_defaultsText : SourceUnit.parse defaultsText = .ok defaultsFile := by
  cbv

set_option maxRecDepth 4000 in
theorem compile_defaultsText : compile "a.ts" defaultsText .standard = .ok defaultsSchema := by
  rw [compile, compilation, parse_defaultsText]
  cbv

theorem hasDefault_of_compile_defaultsText :
    compile "a.ts" defaultsText .standard = .ok defaultsSchema ∧
      ∃ file g, SourceUnit.parse defaultsText = .ok file ∧ extract false file = .ok g ∧
        KeepsApart file.declarations g .standard defaultsSchema ∧
        ∀ value ∈ defaultsSchema.inputValues, ∀ v, value.default = some v →
          ∃ name, HasDefault file.declarations g .standard defaultsSchema value v name := by
  obtain ⟨file, g, hparse, hextract, hdefault⟩ := hasDefault_of_compile compile_defaultsText
  obtain rfl := Except.ok.inj (hparse.symm.trans parse_defaultsText)
  exact ⟨compile_defaultsText, _, g, hparse, hextract, keepsApart_standard rfl rfl, hdefault⟩

/-- The check of the second default only asks whether it is an integer. It is none of 32 bits, so it
is no value of its type, and it cannot be shown. -/
theorem exceeds_default : compile "a.ts" defaultsText .standard = .ok defaultsSchema ∧
    defaultsArgument "m" 3000000000 ∈ defaultsSchema.inputValues ∧
    defaultsSchema.admitsDefault "Int" (.int 3000000000) = false ∧
    defaultsSchema.defaultNode? (.nonNull (.named "Int")) (.int 3000000000) =
      .error (.integerRange "3000000000") :=
  ⟨compile_defaultsText, .tail _ (.head _), by decide, rfl⟩

end DeclaredSchema
