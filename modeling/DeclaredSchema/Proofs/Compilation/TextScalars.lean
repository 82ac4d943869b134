import DeclaredSchema.Proofs.Compilation.Defaults
import DeclaredSchema.Proofs.Extraction.Flattening
import DeclaredSchema.Proofs.Synthesis.Sources
import DeclaredSchema.Proofs.Value

/-!
# Scalars of texts

A union of texts that a compiled schema uses is a scalar there, the same one as output and as input.
The scalar admits these texts and refuses whatever else it can show. It has the name of the union, or
one that is derived from the texts; such a name loses characters, but no schema has two unions under
one name that differ in their texts. So unions without a name share a scalar exactly if their texts
agree.

A union of which one text is left when null and undefined are gone is none of these: it is that
text, which may be absent, and the values of a text are all strings.

## Main definitions

* `Admits` — a scalar admits exactly some texts
* `UsesTexts` — a type of a schema stands for a union of texts of the file

## Main results

* `hasTextScalars_of_compile` — the scalars of texts in compiled schemas
* `single_text_is_string` — a union with one text left
-/

namespace DeclaredSchema

open Synthesis Extraction

/-! ### What a scalar admits -/

/-- The scalar passes the texts through, and refuses any other node and, if it can be shown, any
other value. -/
structure Admits (name : String) (kind : ScalarKind) (texts : List String) : Prop where
  value : ∀ text ∈ texts, kind.serialize name (.str text) = .ok (.str text) ∧
    kind.parse name (.str text) = .ok (.str text)
  node : ∀ text ∈ texts, ∀ block, kind.parseNode name (.string text block) = .ok (.str text)
  otherValue : ∀ v : Value, (∀ text ∈ texts, v ≠ .str text) → ¬v.HoldsLongInteger →
    ∃ shown, v.display = some shown ∧
      kind.serialize name v = .error (.notAmong name texts shown) ∧
      kind.parse name v = .error (.notAmong name texts shown)
  otherText : ∀ text, text ∉ texts → ∀ block,
    kind.parseNode name (.string text block) = .error (.notAmong name texts (Text.quote text))
  otherNode : ∀ node, (∀ text block, node ≠ .string text block) →
    kind.parseNode name node = .error (.textNode name node)

variable {name : String} {texts texts' : List String} {v : Value} {text : String}

theorem validate_of_mem (h : text ∈ texts) :
    ScalarKind.validate name texts (.str text) = .ok (.str text) := by
  rw [ScalarKind.validate, if_pos (List.contains_iff_mem.mpr h)]

theorem validate_of_ne (h : ∀ text ∈ texts, v ≠ .str text) :
    ScalarKind.validate name texts v = v.refuse (.notAmong name texts) := by
  unfold ScalarKind.validate
  split
  · next text =>
    rw [if_neg fun hmem => h text (List.contains_iff_mem.mp hmem) rfl]
  · rfl

/-- **A scalar of texts is exact.** -/
theorem admits_texts (name : String) (texts : List String) : Admits name (.texts texts) texts where
  value text h := ⟨validate_of_mem h, validate_of_mem h⟩
  node text h block := validate_of_mem h
  otherValue v h hshort := by
    obtain ⟨shown, hshown, hrefuse⟩ := Value.refuse_of_not_holdsLongInteger hshort
    have hvalidate : ScalarKind.validate name texts v = .error (.notAmong name texts shown) :=
      (validate_of_ne h).trans hrefuse
    exact ⟨shown, hshown, hvalidate, hvalidate⟩
  otherText text h block := by
    refine validate_of_ne (v := .str text) fun other hmem => ?_
    rintro ⟨⟩
    exact h hmem
  otherNode node h := by
    cases node with
    | string text block => exact absurd rfl (h text block)
    | int | float | enum | boolean | null | list | object | varRef => rfl

/-! ### Unions of texts -/

/-- Under its wrappings and behind other names, the type is the text. -/
def LeadsToText (scope : Scope) (n : Node) (text : String) : Prop :=
  ∃ t, Strips scope n t ∧ t.node.expr = .literal (.str text)

/-- The name of the scalar of a union of texts. -/
def textScalarName (given : Option String) (texts : List String) : String :=
  (givenName given).getD (derivedName texts)

/-- The type `t`, which the roots reach in the mode, stands for the union `n` of the file, or for a
list of it. The union has these texts for alternatives and is not made an enumeration. -/
structure UsesTexts (ctx : ExtractionContext) (r : Registry) (given : Option String) (n : Node)
    (texts : List String) (t : TypeRef) (mode : Mode) : Prop where
  made : ∃ key doc slot, IsUnionOf ctx key given doc n ∧ slotIn r.keys key = some slot ∧
    t.slot? = some slot
  leads : List.Forall₂ (LeadsToText ctx.scope) (alternatives ctx.scope n) texts
  several : 2 ≤ texts.length
  kept : given = none ∨ isTextEnumeration ctx (alternatives ctx.scope n) = false
  reached : Reaches r.graph ((List.range r.graph.length).map .node) t mode

/-- Where types of the schema stand for unions of texts, they are scalars that admit exactly the
texts. -/
structure HasTextScalars (ctx : ExtractionContext) (r : Registry) (schema : Schema)
    (T : TypeRef → Mode → SchemaType) : Prop where
  /-- The scalar is the same in both modes, and is exact. -/
  exact : ∀ {given n texts t mode}, UsesTexts ctx r given n texts t mode →
    (T t mode).baseName = textScalarName given texts ∧
      ∃ u kind, schema.type? (textScalarName given texts) = some u ∧ u.definition = .scalar kind ∧
        Admits u.name kind texts
  /-- Unions without a name have the same scalar exactly if they have the same texts. -/
  shared : ∀ {n texts t mode n' texts' t' mode'}, UsesTexts ctx r none n texts t mode →
    UsesTexts ctx r none n' texts' t' mode' →
    ((T t mode).baseName = (T t' mode').baseName ↔ texts = texts')
  /-- No two unions agree in the name of their scalar and not in their texts. -/
  apart : ∀ {given n texts t mode given' n' texts' t' mode'},
    UsesTexts ctx r given n texts t mode → UsesTexts ctx r given' n' texts' t' mode' →
    textScalarName given texts = textScalarName given' texts' → texts = texts'

variable {ctx : ExtractionContext} {scope : Scope} {r : Registry} {keys : List NodeKey}
  {key : NodeKey} {n : Node} {ns : List Node} {types : List TypeRef} {t : TypeRef} {mode : Mode}
  {slot : Nat} {given doc : Option String}

theorem LeadsToText.text? (h : LeadsToText scope n text) (ht : IsAlternative scope keys n t) :
    t.text? = some text := by
  obtain ⟨inner, hstrips, hliteral⟩ := h
  obtain ⟨inner', hstrips', hdenotes⟩ := ht
  obtain rfl := hstrips.unique hstrips'
  obtain ⟨⟨site, e⟩, nullable, raw⟩ := inner
  obtain rfl : e = .literal (.str text) := hliteral
  cases hdenotes with
  | literal => rfl

/-- What stands for texts consists of them. -/
theorem texts_of_leadsToText (h : List.Forall₂ (LeadsToText scope) ns texts)
    (hall : List.Forall₂ (IsAlternative scope keys) ns types) :
    isTexts types = true ∧ types.filterMap TypeRef.text? = texts := by
  induction h generalizing types with
  | nil =>
    cases hall
    exact ⟨rfl, rfl⟩
  | cons hn _ ih =>
    cases hall with
    | cons ht hrest =>
      have htext := hn.text? ht
      obtain ⟨htexts, hfilter⟩ := ih hrest
      constructor
      · rw [isTexts, List.all_cons, htext]
        exact htexts
      · rw [List.filterMap_cons, htext, hfilter]

/-- The slot of a union with several alternatives that is not made an enumeration has the union. -/
theorem Extraction.IsUnionOf.of_fills {records : Nat → Prop} {shape : Shape}
    (h : IsUnionOf ctx key given doc n) (hscope : IsUnambiguous ctx.scope)
    (hfills : Fills ctx keys records (Resolved ctx) key shape)
    (hseveral : 2 ≤ (alternatives ctx.scope n).length)
    (hkept : given = none ∨ isTextEnumeration ctx (alternatives ctx.scope n) = false) :
    ∃ types, shape = .union given doc types ∧
      List.Forall₂ (IsAlternative ctx.scope keys) (alternatives ctx.scope n) types := by
  cases h with
  | @declared d hd hunion =>
    have hkept := hkept.resolve_left (Option.some_ne_none _)
    obtain ⟨types, hall, rfl⟩ := (hfills.completesDeclaration hscope hd).of_union hseveral hkept
    exact ⟨types, rfl, hall⟩
  | inline hn =>
    cases hfills.completesInline hscope (hn.isAt hscope) with
    | union hall => exact ⟨_, rfl, hall⟩

section Uses

variable {options : CompileOptions} {schema : Schema} {g : Graph} {listed : List TypeRef}
  {T : TypeRef → Mode → SchemaType}

/-- The elements of a list that is reached are reached, and the wrappings do not count. -/
theorem Synthesis.IsImage.reaches_slot (himage : IsImage g listed options schema T)
    (hr : Reaches g listed t mode) (hslot : t.slot? = some slot) :
    Reaches g listed (.node slot) mode ∧ (T t mode).baseName = (T (.node slot) mode).baseName := by
  induction t with
  | node slot' =>
    cases hslot
    exact ⟨hr, rfl⟩
  | array element ih =>
    rw [himage.array hr]
    exact ih hr.element hslot
  | primitive | untypedArray | date | foreign => cases hslot

/-- **A use of a union of texts** is the scalar of the texts. -/
theorem UsesTexts.exact (h : UsesTexts ctx r given n texts t mode)
    (hscope : IsUnambiguous ctx.scope) (hcomplete : IsComplete ctx r)
    (himage : IsImage r.graph ((List.range r.graph.length).map .node) options schema T) :
    (T t mode).baseName = textScalarName given texts ∧
      ∃ u, schema.type? (textScalarName given texts) = some u ∧
        u.definition = .scalar (.texts texts) := by
  obtain ⟨key, doc, slot, hn, hkey, hslot⟩ := h.made
  obtain ⟨shape, hshape, hfills⟩ := hcomplete.filled (getElem?_of_slotIn hkey) id
  obtain ⟨types, rfl, hall⟩ :=
    hn.of_fills hscope hfills (h.leads.length_eq ▸ h.several) h.kept
  obtain ⟨htexts, rfl⟩ := texts_of_leadsToText h.leads hall
  obtain ⟨hr, hbase⟩ := himage.reaches_slot h.reached hslot
  have hs : r.graph.shapeAt? slot = some (.union given doc types) :=
    congrArg (Option.map Descriptor.shape) hshape
  obtain ⟨htype, u, hu, hdefinition⟩ := himage.textUnion hr hs htexts
  rw [hbase, htype]
  exact ⟨rfl, u, hu, hdefinition⟩

/-- **Scalars of texts in an image.** -/
theorem hasTextScalars_of_isImage (hscope : IsUnambiguous ctx.scope) (hcomplete : IsComplete ctx r)
    (himage : IsImage r.graph ((List.range r.graph.length).map .node) options schema T) :
    HasTextScalars ctx r schema T := by
  have hapart : ∀ {given n texts t mode given' n' texts' t' mode'},
      UsesTexts ctx r given n texts t mode → UsesTexts ctx r given' n' texts' t' mode' →
      textScalarName given texts = textScalarName given' texts' → texts = texts' := by
    intro given n texts t mode given' n' texts' t' mode' h h' hname
    obtain ⟨-, u, hu, hdefinition⟩ := h.exact hscope hcomplete himage
    obtain ⟨-, u', hu', hdefinition'⟩ := h'.exact hscope hcomplete himage
    rw [hname, hu'] at hu
    obtain rfl := Option.some.inj hu
    rw [hdefinition'] at hdefinition
    exact (ScalarKind.texts.inj (TypeDefinition.scalar.inj hdefinition)).symm
  refine ⟨fun h => ?exact, fun h h' => ?shared, hapart⟩
  case exact =>
    obtain ⟨hbase, u, hu, hdefinition⟩ := h.exact hscope hcomplete himage
    exact ⟨hbase, u, _, hu, hdefinition, admits_texts _ _⟩
  case shared =>
    rw [(h.exact hscope hcomplete himage).1, (h'.exact hscope hcomplete himage).1]
    refine ⟨hapart h h', ?_⟩
    rintro rfl
    rfl

end Uses

/-- **Scalars of texts in compiled schemas.** -/
theorem hasTextScalars_of_compile {label source : String} {options : CompileOptions}
    {schema : Schema} (h : compile label source options = .ok schema) :
    ∃ file r T, SourceUnit.parse source = .ok file ∧
      Yields (Extraction.run options.unionsAsEnums file) Registry.empty ⟨⟩ r ∧
      IsImage r.graph ((List.range r.graph.length).map .node) options schema T ∧
      HasTextScalars ⟨file.declarations, options.unionsAsEnums⟩ r schema T := by
  obtain ⟨file, g, d, hparse, hextract, hsynthesis⟩ := exists_of_compile h
  obtain ⟨r, hrun, rfl⟩ := yields_of_extract hextract
  obtain ⟨hscope, hcomplete, -⟩ := isComplete_of_run hrun
  have himage := (finished_of_run hsynthesis).isImage
  exact ⟨file, r, _, hparse, hrun, himage, hasTextScalars_of_isImage hscope hcomplete himage⟩

/-! ### Files with unions in one interface -/

theorem compile_of_yields {label source : String} {file : SourceUnit} {options : CompileOptions}
    {schema : Schema} (hparse : SourceUnit.parse source = .ok file)
    (hrun : Yields (Extraction.run options.unionsAsEnums file) Registry.empty ⟨⟩ r)
    (hsynthesis : (synthesis r.graph ((List.range r.graph.length).map .node) options).1 =
      .ok schema) : compile label source options = .ok schema := by
  have hextract : extract options.unionsAsEnums file = .ok r.graph :=
    extract_eq_extractWithin.trans (extractWithin_eq_ok_iff.mpr ⟨r, hrun, rfl⟩)
  rw [compile_of_parse hparse, hextract]
  exact congrArg (Except.mapError _) hsynthesis

/-- A property whose type is a union. -/
def unionProperty (name : String) (es : List TypeExpr) (column : Nat) : Property TypeExpr :=
  ⟨name, .union es, false, false, none, ⟨1, column⟩⟩

/-- The query root with these properties. -/
def queryInterface (ps : List (Property TypeExpr)) : Interface := ⟨"Query", [], ps, none, ⟨1, 11⟩⟩

def queryFile (ps : List (Property TypeExpr)) : SourceUnit := ⟨[], [.interface (queryInterface ps)]⟩

theorem yields_unionMember {rec : Resolver} {r' : Registry} {owner : String} {column : Nat}
    {s : Site} {es : List TypeExpr} {inner : Stripped}
    (hstrips : Strips ctx.scope ⟨s, .union es⟩ inner)
    (h : Yields (rec inner.node inner.raw (owner ++ "." ++ name)) r t r') :
    Yields (member ctx rec ⟨owner, s, unionProperty name es column⟩) r
      ⟨name, t, none, false, inner.nullable, none, none⟩ r' := by
  unfold member
  simp only [yields_bind]
  exact ⟨(none, ⟨s, .union es⟩), r, rfl, (⟨s, .union es⟩, none), r, rfl, inner, r,
    yields_of_strips hstrips, t, r', h, r', r', yields_get.mpr ⟨rfl, rfl⟩, rfl⟩

/-- The table of such a file, once the members of the root are resolved. -/
theorem yields_queryFile {ps : List (Property TypeExpr)} {ms : List Member}
    (h : ∀ depth, Yields (foldLineage (queryFile ps).declarations
        (inherit ⟨(queryFile ps).declarations, false⟩
          (resolve ⟨(queryFile ps).declarations, false⟩ (depth + 2))) (queryInterface ps) [])
      (Registry.empty.add (.declared "Query") (.record "Query" none [])) ms r) :
    Yields (Extraction.run false (queryFile ps)) Registry.empty ⟨⟩
      (r.update 0 (Shape.withMembers ms)) := by
  have hdepth : Extraction.depthBound (queryFile ps) =
      (queryFile ps).size * (queryFile ps).size + 4 * (queryFile ps).size + 2 + 2 := by
    rw [Extraction.depthBound]
    ring
  have hinterface : Yields (interface ⟨(queryFile ps).declarations, false⟩
      (resolve ⟨(queryFile ps).declarations, false⟩ (Extraction.depthBound (queryFile ps)))
      (queryInterface ps)) Registry.empty 0 (r.update 0 (Shape.withMembers ms)) := by
    unfold interface
    simp only [yields_bind]
    refine ⟨none, _, yields_slotOf.mpr ⟨rfl, rfl⟩, ?_⟩
    simp only [yields_bind]
    rw [hdepth]
    exact ⟨0, _, yields_register.mpr ⟨rfl, rfl⟩, ms, r, h _, ⟨⟩, _, yields_change.mpr rfl, rfl⟩
  exact yields_bind.mpr ⟨⟨⟩, _, yields_map.mpr ⟨0, hinterface, rfl⟩, rfl⟩

theorem leadsToText_literal (s : Site) : LeadsToText scope ⟨s, .literal (.str text)⟩ text :=
  ⟨⟨⟨s, .literal (.str text)⟩, false, none⟩, by rw [Strips, strip], rfl⟩

/-! ### Two unions of the same texts -/

/-- Two unions of the same texts. -/
def twinText : String := "interface Query \x7b by: 'x' | 'y'; then: 'x' | 'y' \x7d"

def twinTexts : List TypeExpr := [.literal (.str "x"), .literal (.str "y")]

def twinProperties : List (Property TypeExpr) :=
  [unionProperty "by" twinTexts 19, unionProperty "then" twinTexts 34]

/-- The union in the table. -/
def twinShape : Shape := .union none none
  [.primitive ⟨"string", "'x'", some (.str "x")⟩, .primitive ⟨"string", "'y'", some (.str "y")⟩]

def twinMembers : List Member := [plainMember "by" (.node 1), plainMember "then" (.node 2)]

def twinKeys : List NodeKey :=
  [.declared "Query", .inline ⟨"Query", [0]⟩, .inline ⟨"Query", [1]⟩]

/-- The table with some members of the record. -/
def twinTable (ms : List Member) : Registry :=
  ⟨twinKeys, [⟨1, .record "Query" none ms⟩, ⟨2, twinShape⟩, ⟨3, twinShape⟩]⟩

def twinSchema : Schema where
  query := some "Query"
  mutation := none
  types := [
    ⟨"Query", none, .object [⟨"by", .nonNull (.named "x__y"), [], none⟩,
      ⟨"then", .nonNull (.named "x__y"), [], none⟩]⟩,
    ⟨"x__y", none, .scalar (.texts ["x", "y"])⟩]

/-- The union has several alternatives, so there is nothing to take off. -/
theorem strips_twinTexts (s : Site) :
    Strips scope ⟨s, .union twinTexts⟩ ⟨⟨s, .union twinTexts⟩, false, none⟩ := by
  have hwritten : writtenAlternatives scope ⟨s, .union twinTexts⟩ =
      [⟨s.child 0, .literal (.str "x")⟩, ⟨s.child 1, .literal (.str "y")⟩] := by cbv
  have hnullish : hasNullishLeaf scope ⟨s, .union twinTexts⟩ = false := by cbv
  rw [Strips, strip_several (hwritten ▸ Nat.le_refl 2), hnullish]
  rfl

theorem lineage_twinProperties :
    lineage (queryFile twinProperties).declarations (queryInterface twinProperties) =
      [.member ⟨"Query", ⟨"Query", [0]⟩, unionProperty "by" twinTexts 19⟩,
        .member ⟨"Query", ⟨"Query", [1]⟩, unionProperty "then" twinTexts 34⟩] := by
  cbv

/-- The two members are resolved one after the other, and each union takes a slot. -/
theorem yields_twinFile : Yields (Extraction.run false (queryFile twinProperties)) Registry.empty ⟨⟩
    (twinTable twinMembers) := by
  refine yields_queryFile (r := twinTable []) fun depth => ?_
  rw [foldLineage_eq_foldlM, lineage_twinProperties]
  simp only [List.foldlM_cons, List.foldlM_nil, inherit, yields_bind]
  refine ⟨[plainMember "by" (.node 1)],
    ⟨twinKeys.take 2, [⟨1, .record "Query" none []⟩, ⟨2, twinShape⟩]⟩,
    ⟨_, _, yields_unionMember (strips_twinTexts _) ?_, rfl⟩, _, _,
    ⟨_, _, yields_unionMember (t := .node 2) (strips_twinTexts _) ?_, rfl⟩, rfl⟩
  · cbv
  · cbv

theorem compile_twinText : compile "a.ts" twinText .standard = .ok twinSchema := by
  have hparse : SourceUnit.parse twinText = .ok (queryFile twinProperties) := by cbv
  exact compile_of_yields hparse yields_twinFile (by decide +kernel)

/-- Both members use their unions. -/
theorem usesTexts_twinTexts {s : Site} {m : Member}
    (hn : ⟨s, .union twinTexts⟩ ∈ declarationNeeds ⟨(queryFile twinProperties).declarations, false⟩
      (.interface (queryInterface twinProperties)))
    (hslot : slotIn twinKeys (.inline s) = some slot) (hm : m ∈ twinMembers)
    (htype : m.type = .node slot) : UsesTexts ⟨(queryFile twinProperties).declarations, false⟩
      (twinTable twinMembers) none ⟨s, .union twinTexts⟩ ["x", "y"] m.type .output where
  made := ⟨_, none, slot, .inline (.declared (.head _) hn (strips_twinTexts s)), hslot,
    htype ▸ rfl⟩
  leads := by
    have halternatives : alternatives (queryFile twinProperties).declarations
        ⟨s, .union twinTexts⟩ =
        [⟨s.child 0, .literal (.str "x")⟩, ⟨s.child 1, .literal (.str "y")⟩] := by cbv
    rw [halternatives]
    exact .cons (leadsToText_literal _) (.cons (leadsToText_literal _) .nil)
  several := Nat.le_refl 2
  kept := .inl rfl
  reached := by
    have hname : ∀ m ∈ twinMembers, m.name ≠ typenameMember := by decide
    have hquery : (twinTable twinMembers).graph.shapeAt? 0 =
        some (.record queryRoot none twinMembers) := rfl
    exact reaches_of_mem (.head _) hquery hm (hname m hm)

/-- The two unions share their scalar. -/
theorem hasTextScalars_of_compile_twinText : compile "a.ts" twinText .standard = .ok twinSchema ∧
    ∃ T n n', HasTextScalars ⟨(queryFile twinProperties).declarations, false⟩
        (twinTable twinMembers) twinSchema T ∧
      UsesTexts ⟨(queryFile twinProperties).declarations, false⟩ (twinTable twinMembers) none n
        ["x", "y"] (.node 1) .output ∧
      UsesTexts ⟨(queryFile twinProperties).declarations, false⟩ (twinTable twinMembers) none n'
        ["x", "y"] (.node 2) .output ∧
      (T (.node 1) .output).baseName = (T (.node 2) .output).baseName := by
  have hparse : SourceUnit.parse twinText = .ok (queryFile twinProperties) := by cbv
  obtain ⟨file, r, T, hfile, hrun, -, htexts⟩ := hasTextScalars_of_compile compile_twinText
  obtain rfl := Except.ok.inj (hparse.symm.trans hfile)
  obtain ⟨-, rfl⟩ := yields_twinFile.unique hrun
  have hneeds : declarationNeeds ⟨(queryFile twinProperties).declarations, false⟩
      (.interface (queryInterface twinProperties)) =
      [⟨⟨"Query", [0]⟩, .union twinTexts⟩, ⟨⟨"Query", [1]⟩, .union twinTexts⟩] := by
    rw [declarationNeeds, lineage_twinProperties]
    rfl
  have huse := usesTexts_twinTexts (hneeds.symm ▸ List.Mem.head _) rfl (.head _) rfl
  have huse' := usesTexts_twinTexts (hneeds.symm ▸ List.Mem.tail _ (.head _)) rfl
    (.tail _ (.head _)) rfl
  exact ⟨compile_twinText, T, _, _, htexts, huse, huse', (htexts.shared huse huse').mpr rfl⟩

/-! ### A union with one text left -/

/-- A text that may be absent. -/
def singleText : String := "interface Query \x7b x: 'a' | null \x7d"

def singleTexts : List TypeExpr := [.literal (.str "a"), .keyword .null]

def singleFile : SourceUnit := queryFile [unionProperty "x" singleTexts 19]

def singleMember : Member :=
  ⟨"x", .primitive ⟨"string", "'a'", some (.str "a")⟩, none, false, true, none, none⟩

def singleSchema : Schema where
  query := some "Query"
  mutation := none
  types := [⟨"Query", none, .object [⟨"x", .named "String", [], none⟩]⟩]

/-- Only the text is left, and it may be absent. -/
theorem strips_singleTexts (s : Site) : Strips scope ⟨s, .union singleTexts⟩
    ⟨⟨s.child 0, .literal (.str "a")⟩, true, none⟩ := by
  have hwritten : writtenAlternatives scope ⟨s, .union singleTexts⟩ =
      [⟨s.child 0, .literal (.str "a")⟩] := by cbv
  have hnullish : hasNullishLeaf scope ⟨s, .union singleTexts⟩ = true := by cbv
  rw [Strips, strip_only hwritten, hnullish, strip]
  rfl

theorem yields_singleFile : Yields (Extraction.run false singleFile) Registry.empty ⟨⟩
    ⟨[.declared "Query"], [⟨1, .record "Query" none [singleMember]⟩]⟩ := by
  have hlineage : lineage singleFile.declarations
      (queryInterface [unionProperty "x" singleTexts 19]) =
      [.member ⟨"Query", ⟨"Query", [0]⟩, unionProperty "x" singleTexts 19⟩] := by cbv
  refine yields_queryFile (r := ⟨[.declared "Query"], [⟨1, .record "Query" none []⟩]⟩)
    fun depth => ?_
  rw [foldLineage_eq_foldlM, ← singleFile, hlineage]
  simp only [List.foldlM_cons, List.foldlM_nil, inherit, yields_bind]
  exact ⟨_, _, ⟨_, _, yields_unionMember (strips_singleTexts _) rfl, rfl⟩, rfl⟩

set_option maxRecDepth 4000 in
/-- **A union with one text left** is no scalar of its own: the field admits all strings, and the
schema has no scalar that refuses any. -/
theorem single_text_is_string :
    compile "a.ts" singleText .standard = .ok singleSchema ∧
      SourceUnit.parse singleText = .ok singleFile ∧
      List.Forall₂ (LeadsToText singleFile.declarations)
        (alternatives singleFile.declarations ⟨⟨"Query", [0]⟩, .union singleTexts⟩) ["a"] ∧
      ∀ u ∈ singleSchema.types, u.definition.isScalar = false := by
  have hparse : SourceUnit.parse singleText = .ok singleFile := by cbv
  have halternatives : alternatives singleFile.declarations ⟨⟨"Query", [0]⟩, .union singleTexts⟩ =
      [⟨⟨"Query", [0, 0]⟩, .literal (.str "a")⟩] := by cbv
  refine ⟨compile_of_yields hparse yields_singleFile (by decide +kernel), hparse, ?_, by decide⟩
  rw [halternatives]
  exact .cons (leadsToText_literal _) .nil

end DeclaredSchema
