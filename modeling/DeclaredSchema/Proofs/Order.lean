import DeclaredSchema.Proofs.Extraction.Alike
import DeclaredSchema.Proofs.Extraction.Reorder

/-!
# The order of declarations

What a file declares is what counts, and not in which order it does so or what else it declares. The
tables of two such files hold the same in slots with the same key, so they become the same schema.
Numbers of placeholders are given in the order of visits, which start from the roots, so these are
the same, too.

## Main results

* `schema_independent_of_order` — files in another order, with unused declarations
-/

namespace DeclaredSchema

open Extraction

variable {u u' : SourceUnit} {extra : List Declaration} {g g' : Graph}

/-- The tables of two files, of which one adds unused declarations to the other, become the same
schema. -/
theorem AddsUnused.synthesize_iff (h : AddsUnused extra u u') {options : CompileOptions}
    (hg : extract options.unionsAsEnums u = .ok g)
    (hg' : extract options.unionsAsEnums u' = .ok g') {schema : Schema} :
    synthesize g options = .ok schema ↔ synthesize g' options = .ok schema := by
  obtain ⟨r, hrun, rfl, htable⟩ := isTable_of_extract hg
  obtain ⟨r', hrun', rfl, htable'⟩ := isTable_of_extract hg'
  have hscope := (isComplete_of_run hrun).1
  have hscope' := (isComplete_of_run hrun').1
  have hwidens := widensTo_of_addsUnused h hscope hscope' options.unionsAsEnums
  refine Synthesis.synthesize_iff_of_alike (htable.alike hwidens hscope' htable')
    (htable.rootsAlike hwidens htable' fun d hd hroot => ?_)
  rcases List.mem_append.mp (h.perm.mem_iff.mp hd) with hold | hextra
  · exact hold
  · obtain ⟨hquery, hmutation⟩ := h.unrooted d hextra
    exact absurd hroot (not_or.mpr ⟨hquery, hmutation⟩)

/-- **The schema is independent of the order.** If a file has the declarations of another one in any
order, and besides them only declarations that the other one does not mention, and if both can be
extracted, then either neither has a schema or both have the same. Whether a file can be extracted
does not depend on the order either, if no member has a default. -/
theorem schema_independent_of_order (options : CompileOptions) (u u' : SourceUnit) :
    (∀ extra, AddsUnused extra u u' → ∀ g g', extract options.unionsAsEnums u = .ok g →
      extract options.unionsAsEnums u' = .ok g' →
      (∃ e e', synthesize g options = .error e ∧ synthesize g' options = .error e') ∨
        ∃ schema, synthesize g options = .ok schema ∧ synthesize g' options = .ok schema) ∧
    (u'.declarations.Perm u.declarations → ¬UsesDefault u.declarations →
      ((∃ g, extract options.unionsAsEnums u = .ok g) ↔
        ∃ g', extract options.unionsAsEnums u' = .ok g')) := by
  refine ⟨fun extra h g g' hg hg' => ?_, extract_iff_of_perm⟩
  have hiff : ∀ schema, synthesize g options = .ok schema ↔ synthesize g' options = .ok schema :=
    fun _ => h.synthesize_iff hg hg'
  cases hs : synthesize g options with
  | ok schema => exact .inr ⟨schema, rfl, (hiff schema).mp hs⟩
  | error e =>
    cases hs' : synthesize g' options with
    | ok schema => cases hs.symm.trans ((hiff schema).mpr hs')
    | error e' => exact .inl ⟨e, e', rfl, rfl⟩

/-! ### A file in two orders -/

/-- Two interfaces that refer to each other, with an inline object type. -/
def mutualFile : SourceUnit where
  imports := []
  declarations := [
    .interface ⟨"Query", [], [
      ⟨"users", .array (.reference "User" [] ⟨2, 10⟩), false, false, none, ⟨2, 3⟩⟩,
      ⟨"size", .object [⟨"width", .reference "Int" [] ⟨3, 18⟩, false, false, none, ⟨3, 11⟩⟩] ⟨3, 9⟩,
        false, false, none, ⟨3, 3⟩⟩], none, ⟨1, 11⟩⟩,
    .interface ⟨"User", [], [
      ⟨"query", .reference "Query" [] ⟨6, 10⟩, false, false, none, ⟨6, 3⟩⟩], none, ⟨5, 11⟩⟩]

/-- A declaration that nothing refers to. -/
def unusedDeclaration : Declaration := .interface ⟨"Unused", ["User"], [], none, ⟨8, 11⟩⟩

/-- The same declarations in another order, and the unused one. -/
def reorderedFile : SourceUnit where
  imports := []
  declarations := mutualFile.declarations.reverse ++ [unusedDeclaration]

/-- The table of the file. -/
def mutualTable : Graph := [
  ⟨1, .record "Query" none [
    ⟨"users", .array (.node 1), none, false, false, none, none⟩,
    ⟨"size", .node 2, none, false, false, none, none⟩]⟩,
  ⟨2, .record "User" none [⟨"query", .node 0, none, false, false, none, none⟩]⟩,
  ⟨3, .inlineRecord "Query.size, line 3" none [
    ⟨"width", .primitive ⟨"number", "Int", none⟩, none, false, false, none, none⟩]⟩]

/-- The table of the file in the other order. -/
def reorderedTable : Graph := [
  ⟨1, .record "User" none [⟨"query", .node 1, none, false, false, none, none⟩]⟩,
  ⟨2, .record "Query" none [
    ⟨"users", .array (.node 0), none, false, false, none, none⟩,
    ⟨"size", .node 2, none, false, false, none, none⟩]⟩,
  ⟨3, .inlineRecord "Query.size, line 3" none [
    ⟨"width", .primitive ⟨"number", "Int", none⟩, none, false, false, none, none⟩]⟩,
  ⟨4, .record "Unused" none [⟨"query", .node 1, none, false, false, none, none⟩]⟩]

/-- The schema of both. -/
def mutualSchema : Schema :=
  ⟨some "Query", none, [
    ⟨"Query", none, .object [
      ⟨"users", .nonNull (.list (.nonNull (.named "User"))), [], none⟩,
      ⟨"size", .nonNull (.named "Anonymous1"), [], none⟩]⟩,
    ⟨"User", none, .object [⟨"query", .nonNull (.named "Query"), [], none⟩]⟩,
    ⟨"Anonymous1", none, .object [⟨"width", .nonNull (.named "Int"), [], none⟩]⟩]⟩

theorem mentions_mutualFile :
    Scope.mentions mutualFile.declarations = ["User", "Int", "Query"] := by
  cbv

theorem addsUnused_reorderedFile : AddsUnused [unusedDeclaration] mutualFile reorderedFile where
  perm := (List.reverse_perm _).append_right _
  undeclared d hd := by
    rw [List.mem_singleton.mp hd]
    rfl
  unmentioned d hd hmentioned := by
    have hmem := mem_mentions_of_isMentioned hmentioned
    rw [List.mem_singleton.mp hd, mentions_mutualFile] at hmem
    exact absurd hmem (by decide)
  unrooted d hd := by
    rw [List.mem_singleton.mp hd]
    decide

/-- The slots of the sample differ, and the schema is the same. -/
theorem schema_independent_of_order_mutualFile :
    AddsUnused [unusedDeclaration] mutualFile reorderedFile ∧
      extract false mutualFile = .ok mutualTable ∧
      extract false reorderedFile = .ok reorderedTable ∧
      synthesize mutualTable .standard = .ok mutualSchema ∧
      synthesize reorderedTable .standard = .ok mutualSchema ∧
      ¬UsesDefault mutualFile.declarations ∧
      ∃ g, extract false ⟨[], mutualFile.declarations.reverse⟩ = .ok g := by
  have hfile : extract false mutualFile = .ok mutualTable := by cbv
  have hreordered : extract false reorderedFile = .ok reorderedTable := by cbv
  have hschema : synthesize mutualTable .standard = .ok mutualSchema := by decide +kernel
  have hdefault : ¬UsesDefault mutualFile.declarations := by
    intro h
    have hmem := mem_mentions_of_isMentioned (isMentioned_of_usesDefault h)
    rw [mentions_mutualFile] at hmem
    exact absurd hmem (by decide)
  refine ⟨addsUnused_reorderedFile, hfile, hreordered, hschema, ?_, hdefault, ?_⟩
  · rcases (schema_independent_of_order .standard mutualFile reorderedFile).1 _
      addsUnused_reorderedFile _ _ hfile hreordered with ⟨e, e', he, -⟩ | ⟨schema, hs, hs'⟩
    · cases hschema.symm.trans he
    · cases hschema.symm.trans hs
      exact hs'
  · exact ((schema_independent_of_order .standard mutualFile
      ⟨[], mutualFile.declarations.reverse⟩).2 (List.reverse_perm _) hdefault).mp ⟨_, hfile⟩

end DeclaredSchema
