import DeclaredSchema.Proofs.Compilation.Defaults
import DeclaredSchema.Proofs.Extraction.Flattening
import DeclaredSchema.Proofs.Extraction.NullableAlias
import DeclaredSchema.Proofs.Synthesis.Refusal

/-!
# Unions from declaration to schema

A union of the table is flat where the flattening has left no union among its alternatives. What its
alternatives stand for can then be told from what is behind them, and a synthesis that refuses a
union names it by its label, which no other union has. So a union of object types is never refused
as output for what its alternatives are, and a union of texts in neither mode. A union that is
hidden behind a name for its name stays a union within the other one, and that one is refused.

## Main definitions

* `AcceptsUnion` — no synthesis refuses a union for what its alternatives are
* `IsFlattened` — a union of the table is one of everything within it that is no union

## Main results

* `unions_flattened` — the unions of a table, where the file hides no union
* `buries_union` — a union that is an alternative of another one
-/

namespace DeclaredSchema

open Extraction Synthesis

/-- No synthesis from the graph refuses the union of the label in the mode for what its alternatives
are. -/
def AcceptsUnion (g : Graph) (mode : Mode) (label : String) : Prop :=
  ∀ options x, synthesize g options = .error (.descriptor x) → ¬RefusesUnion mode label x.fault

/-- The union in a slot is made from the type `n`, and has the alternatives of its whole
expansion. -/
structure IsFlattened (ctx : ExtractionContext) (r : Registry) (slot : Nat) (d : Descriptor)
    (n : Node) : Prop where
  /-- The type is the body of an alias, or an inline union, and its alternatives are those of the
  union, in order. -/
  made : ∃ key name doc types, r.keys[slot]? = some key ∧ d.shape = .union name doc types ∧
    IsUnionOf ctx key name doc n ∧
    List.Forall₂ (IsAlternative ctx.scope r.keys) (alternatives ctx.scope n) types
  /-- All unions within the type give way to their own alternatives, in order. -/
  expands : Expands ctx.scope [n] (alternatives ctx.scope n)
  /-- No alternative is a union. -/
  flat : ∀ name doc types, d.shape = .union name doc types → ∀ t ∈ types,
    ∀ name' doc' types', r.graph.shape? t ≠ some (.union name' doc' types')
  /-- A union of object types is accepted as output. -/
  objects : (∀ m ∈ alternatives ctx.scope n, IsObjectType ctx.scope m) →
    AcceptsUnion r.graph .output d.label
  /-- A union of texts is accepted in both modes. -/
  texts : (∀ m ∈ alternatives ctx.scope n, IsTextType ctx.scope m) →
    ∀ mode, AcceptsUnion r.graph mode d.label

variable {ctx : ExtractionContext} {r : Registry} {slot slot' : Nat} {d d' : Descriptor}
  {name name' doc doc' : Option String} {types types' : List TypeRef}

/-! ### Labels of unions -/

/-- A union is called by its name, or by its number if it has none. -/
theorem label_of_union (h : d.shape = .union name doc types) : d.label =
    match givenName name with
    | some n => "union '" ++ n ++ "'"
    | none => "anonymous union #" ++ toString d.id := by
  rw [Descriptor.label, h]
  cases name with
  | none => rfl
  | some n =>
    by_cases hempty : n.isEmpty = true
    · have hgiven : givenName (some n) = none := by simp [givenName, Option.filter, hempty]
      rw [hgiven]
      exact if_pos hempty
    · have hgiven : givenName (some n) = some n := by simp [givenName, Option.filter, hempty]
      rw [hgiven]
      exact if_neg hempty

/-- A name and a number are told apart by how a label begins. -/
theorem named_ne_numbered {n i : String} : "union '" ++ n ++ "'" ≠ "anonymous union #" ++ i := by
  intro h
  have hchars := congrArg String.toList h
  simp at hchars

/-- **No two unions of a table have the same label.** -/
theorem slot_eq_of_label (h : IsComplete ctx r) (hnodup : r.keys.Nodup)
    (hd : r.graph[slot]? = some d) (hd' : r.graph[slot']? = some d')
    (hshape : d.shape = .union name doc types) (hshape' : d'.shape = .union name' doc' types')
    (hlabel : d.label = d'.label) : slot = slot' := by
  obtain ⟨key, hkey, hfills⟩ := h.exists_key hd
  obtain ⟨key', hkey', hfills'⟩ := h.exists_key hd'
  rw [hshape] at hfills
  rw [hshape'] at hfills'
  rw [label_of_union hshape, label_of_union hshape'] at hlabel
  cases hgiven : givenName name with
  | none =>
    cases hgiven' : givenName name' with
    | none =>
      simp only [hgiven, hgiven', String.append_right_inj] at hlabel
      rw [(h.exists_fills hd).1, (h.exists_fills hd').1] at hlabel
      exact Nat.succ.inj (toString_injective hlabel)
    | some n' =>
      simp only [hgiven, hgiven'] at hlabel
      exact absurd hlabel.symm named_ne_numbered
  | some n =>
    cases hgiven' : givenName name' with
    | none =>
      simp only [hgiven, hgiven'] at hlabel
      exact absurd hlabel named_ne_numbered
    | some n' =>
      simp only [hgiven, hgiven', String.append_left_inj, String.append_right_inj] at hlabel
      obtain rfl : name = some n := (Option.filter_eq_some_iff.mp hgiven).1
      obtain rfl : name' = some n' := (Option.filter_eq_some_iff.mp hgiven').1
      obtain rfl : key = .declared n := hfills.name?_eq_some_iff.mp rfl
      obtain rfl : key' = .declared n' := hfills'.name?_eq_some_iff.mp rfl
      obtain ⟨hlt, -⟩ := List.getElem?_eq_some_iff.mp hkey
      exact (List.getElem?_inj hlt hnodup).mp (by rw [hkey, hkey', hlabel])

/-! ### Unions that are expanded -/

/-- **Unions are flattened.** Where the file hides no union, each union of the table has the
alternatives of its whole expansion, none of which is a union; if these are object types it is
accepted as output, and if they are texts in both modes. -/
theorem unions_flattened {unionsAsEnums : Bool} {file : SourceUnit} {g : Graph}
    (hhides : HidesNoUnion file.declarations) (h : extract unionsAsEnums file = .ok g) :
    ∃ r, Yields (Extraction.run unionsAsEnums file) Registry.empty ⟨⟩ r ∧ r.graph = g ∧
      ∀ (slot : Nat) (d : Descriptor) (name doc : Option String) (types : List TypeRef),
        g[slot]? = some d → d.shape = .union name doc types →
        ∃ n, IsFlattened ⟨file.declarations, unionsAsEnums⟩ r slot d n := by
  obtain ⟨r, hrun, rfl⟩ := yields_of_extract h
  obtain ⟨hscope, hcomplete, hgrows⟩ := isComplete_of_run hrun
  have hnodup : r.keys.Nodup := hgrows.nodup List.nodup_nil
  refine ⟨r, hrun, rfl, fun slot d name doc types hd hshape => ?_⟩
  obtain ⟨key, hkey, hfills⟩ := hcomplete.exists_key hd
  rw [hshape] at hfills
  obtain ⟨n, hn, hall⟩ := hfills.of_union
  have hat := hn.isAt hscope
  have hsingle := hhides n hat (hall.length_eq ▸ hfills.two_le_length)
  have halternative : ∀ t ∈ types, ∃ m ∈ alternatives file.declarations n,
      IsAt file.declarations m ∧ IsNoUnion file.declarations m ∧
        IsAlternative file.declarations r.keys m t := by
    intro t ht
    obtain ⟨m, hm, hdenotes⟩ := exists_left_of_forall₂ hall ht
    exact ⟨m, hm, isAt_of_mem_alternatives hat hm, hsingle m hm, hdenotes⟩
  -- what a refused union of the same label has for alternatives
  have hrefused : ∀ {mode options x}, synthesize r.graph options = .error (.descriptor x) →
      RefusesUnion mode d.label x.fault → isTexts types = false ∧
        (mode = .output → ∃ t ∈ types, r.graph.isRecord t = false) := by
    intro mode options x hsynthesis hrefuses
    obtain ⟨d', hd', hlabel, name', doc', types', hshape', htypes⟩ :=
      isRefusable_of_synthesize hsynthesis hrefuses
    obtain ⟨slot', hd'⟩ := List.mem_iff_getElem?.mp hd'
    obtain rfl := slot_eq_of_label hcomplete hnodup hd' hd hshape' hshape hlabel
    cases hd.symm.trans hd'
    cases hshape.symm.trans hshape'
    exact htypes
  refine ⟨n, ⟨key, name, doc, types, hkey, hshape, hn, hall⟩,
    (expands_alternatives_iff hn.isUnion).mpr hsingle, ?flat, ?objects, ?texts⟩
  case flat =>
    intro _ _ _ hshape' t ht name' doc' types'
    cases hshape.symm.trans hshape'
    obtain ⟨m, -, hm, hsingle, hdenotes⟩ := halternative t ht
    exact shape?_ne_union hcomplete hscope hm hsingle hdenotes
  case objects =>
    intro hobjects options x hsynthesis hrefuses
    obtain ⟨t, ht, hrecord⟩ := (hrefused hsynthesis hrefuses).2 rfl
    obtain ⟨m, hmem, hm, hsingle, hdenotes⟩ := halternative t ht
    cases hrecord.symm.trans
      (isRecord_of_isObjectType hcomplete hscope hm hsingle hdenotes (hobjects m hmem))
  case texts =>
    intro htexts mode options x hsynthesis hrefuses
    have hyes : isTexts types = true := by
      refine List.all_eq_true.mpr fun t ht => ?_
      obtain ⟨m, hmem, hm, hsingle, hdenotes⟩ := halternative t ht
      exact text_of_isTextType hcomplete hscope hm hsingle hdenotes (htexts m hmem)
    cases hyes.symm.trans (hrefused hsynthesis hrefuses).1

/-! ### A union of unions -/

/-- An interface with one text. -/
def textInterface (name : String) (line : Nat) : Declaration :=
  .interface ⟨name, [], [⟨"x", .keyword .string, false, false, none, ⟨line, 18⟩⟩], none,
    ⟨line, 11⟩⟩

/-- A name for the union of two names. -/
def pairAlias (name left right : String) (line : Nat) : Alias :=
  ⟨name, .union [.reference left [] ⟨line, 10⟩, .reference right [] ⟨line, 14⟩], none, ⟨line, 6⟩⟩

/-- A union with the name of a union. -/
def nestedFile : SourceUnit where
  imports := []
  declarations := [textInterface "A" 1, textInterface "B" 2, textInterface "C" 3,
    .typeAlias (pairAlias "N" "A" "B" 4), .typeAlias (pairAlias "U" "N" "C" 5)]

/-- The record of an interface with one text. -/
def textRecord (id : Int) (name : String) : Descriptor :=
  ⟨id, .record name none [⟨"x", .primitive ⟨"string", "string", none⟩, none, false, false, none,
    none⟩]⟩

/-- The table of the nested unions. -/
def nestedTable : Graph := [textRecord 1 "A", textRecord 2 "B", textRecord 3 "C",
  ⟨4, .union (some "N") none [.node 0, .node 1]⟩,
  ⟨5, .union (some "U") none [.node 0, .node 1, .node 2]⟩]

theorem mem_nestedFile {d : Alias} (h : .typeAlias d ∈ nestedFile.declarations) :
    d = pairAlias "N" "A" "B" 4 ∨ d = pairAlias "U" "N" "C" 5 := by
  simpa [nestedFile, textInterface] using h

/-- The union of two names ends where the names do. -/
theorem endsBelow_pairAlias {scope : Scope} {name left right : String} {line : Nat}
    (hleft : ∀ position, EndsBelow scope (.reference left [] position))
    (hright : ∀ position, EndsBelow scope (.reference right [] position)) :
    EndsBelow scope (pairAlias name left right line).type := by
  refine .union fun e he => ?_
  rcases List.mem_cons.mp he with rfl | he
  · exact hleft _
  · rw [List.mem_singleton.mp he]
    exact hright _

theorem hasAcyclicAliases_nestedFile : HasAcyclicAliases nestedFile.declarations := by
  have hpair : EndsBelow nestedFile.declarations (pairAlias "N" "A" "B" 4).type :=
    endsBelow_pairAlias (fun _ => .undeclared rfl) (fun _ => .undeclared rfl)
  refine hasAcyclicAliases_of_endsBelow fun d hd => ?_
  rcases mem_nestedFile hd with rfl | rfl
  · exact hpair
  · exact endsBelow_pairAlias (fun _ => .named rfl hpair) (fun _ => .undeclared rfl)

theorem hidesNoUnion_nestedFile : HidesNoUnion nestedFile.declarations := by
  have hunions : Scope.unions nestedFile.declarations =
    [[.reference "A" [] ⟨4, 10⟩, .reference "B" [] ⟨4, 14⟩],
      [.reference "N" [] ⟨5, 10⟩, .reference "C" [] ⟨5, 14⟩]] := by cbv
  have hplain : ∀ {name position}, (∀ d, Scope.alias? nestedFile.declarations name = some d →
      d.type.isUnion = true) → IsPlain nestedFile.declarations (.reference name [] position) :=
    fun h => ⟨ne_promiseName_of_nil, fun d hd => ⟨rfl, h d hd⟩⟩
  have hundeclared : ∀ {name position}, Scope.alias? nestedFile.declarations name = none →
      IsPlain nestedFile.declarations (.reference name [] position) :=
    fun hnone => hplain fun _ hd => by cases hnone.symm.trans hd
  refine (showsUnions_of_isPlain fun es hes => ?_).hidesNoUnion hasAcyclicAliases_nestedFile
  rw [hunions] at hes
  simp only [List.mem_cons, List.not_mem_nil, or_false] at hes
  rcases hes with rfl | rfl
  · exact List.forall_mem_cons.mpr ⟨hundeclared rfl,
      List.forall_mem_singleton.mpr (hundeclared rfl)⟩
  · refine List.forall_mem_cons.mpr ⟨hplain fun d hd => ?_,
      List.forall_mem_singleton.mpr (hundeclared rfl)⟩
    cases hd
    rfl

set_option maxRecDepth 4000 in
/-- The union has the alternatives of the other one, and is accepted as output. -/
theorem unions_flattened_nestedFile :
    HidesNoUnion nestedFile.declarations ∧ extract false nestedFile = .ok nestedTable ∧
    (∃ r, Yields (Extraction.run false nestedFile) Registry.empty ⟨⟩ r ∧ r.graph = nestedTable ∧
      IsFlattened ⟨nestedFile.declarations, false⟩ r 4
        ⟨5, .union (some "U") none [.node 0, .node 1, .node 2]⟩ (pairAlias "U" "N" "C" 5).node) ∧
    AcceptsUnion nestedTable .output "union 'U'" := by
  have hextract : extract false nestedFile = .ok nestedTable := by cbv
  obtain ⟨r, hrun, hgraph, hall⟩ := unions_flattened hidesNoUnion_nestedFile hextract
  obtain ⟨n, hn⟩ := hall 4 _ _ _ _ rfl rfl
  obtain rfl : n = (pairAlias "U" "N" "C" 5).node := by
    obtain ⟨key, name, doc, types, -, hshape, hmade, -⟩ := hn.made
    cases hshape
    obtain ⟨d, hd, hname, rfl⟩ := hmade.exists_alias
    rcases mem_nestedFile hd with rfl | rfl
    · exact absurd hname (by decide)
    · rfl
  have hobjects : AcceptsUnion nestedTable .output "union 'U'" := by
    refine hgraph ▸ hn.objects fun m hm => ?_
    have hns : alternatives nestedFile.declarations (pairAlias "U" "N" "C" 5).node =
        [⟨⟨"N", [0]⟩, .reference "A" [] ⟨4, 10⟩⟩, ⟨⟨"N", [1]⟩, .reference "B" [] ⟨4, 14⟩⟩,
          ⟨⟨"U", [1]⟩, .reference "C" [] ⟨5, 14⟩⟩] := by cbv
    simp only [hns, List.mem_cons, List.not_mem_nil, or_false] at hm
    rcases hm with rfl | rfl | rfl
    all_goals exact ⟨_, .refl, .interface rfl⟩
  exact ⟨hidesNoUnion_nestedFile, hextract, ⟨r, hrun, hgraph, hn⟩, hobjects⟩

/-! ### A union that is hidden -/

/-- A union with another name for the name of a union. -/
def buriedFile : SourceUnit where
  imports := []
  declarations := [
    .interface ⟨"Query", [], [⟨"u", .reference "U" [] ⟨1, 22⟩, false, false, none, ⟨1, 19⟩⟩], none,
      ⟨1, 11⟩⟩,
    textInterface "A" 2, textInterface "B" 3, textInterface "C" 4,
    .typeAlias (pairAlias "N" "A" "B" 5),
    .typeAlias ⟨"M", .reference "N" [] ⟨6, 10⟩, none, ⟨6, 6⟩⟩,
    .typeAlias (pairAlias "U" "M" "C" 7)]

/-- The table of the hidden union. -/
def buriedTable : Graph := [
  ⟨1, .record "Query" none [⟨"u", .node 1, none, false, false, none, none⟩]⟩,
  ⟨2, .union (some "U") none [.node 2, .node 5]⟩,
  ⟨3, .union (some "N") none [.node 3, .node 4]⟩,
  textRecord 4 "A", textRecord 5 "B", textRecord 6 "C"]

theorem hasAcyclicAliases_buriedFile : HasAcyclicAliases buriedFile.declarations := by
  have hpair : EndsBelow buriedFile.declarations (pairAlias "N" "A" "B" 5).type :=
    endsBelow_pairAlias (fun _ => .undeclared rfl) (fun _ => .undeclared rfl)
  have hname : EndsBelow buriedFile.declarations (.reference "N" [] ⟨6, 10⟩) := .named rfl hpair
  refine hasAcyclicAliases_of_endsBelow fun d hd => ?_
  have hd : d = pairAlias "N" "A" "B" 5 ∨ d = ⟨"M", .reference "N" [] ⟨6, 10⟩, none, ⟨6, 6⟩⟩ ∨
      d = pairAlias "U" "M" "C" 7 := by simpa [buriedFile, textInterface] using hd
  rcases hd with rfl | rfl | rfl
  · exact hpair
  · exact hname
  · exact endsBelow_pairAlias (fun _ => .named rfl hname) (fun _ => .undeclared rfl)

set_option maxRecDepth 8000 in
/-- **Hidden unions.** A union hides another one behind a name for its name. It has the other one as
an alternative, and is refused as output, although all that it consists of are object types. -/
theorem buries_union : HasAcyclicAliases buriedFile.declarations ∧
    extract false buriedFile = .ok buriedTable ∧
    (∃ d ∈ buriedTable, ∃ name doc types, d.shape = .union name doc types ∧ ∃ t ∈ types,
      ∃ name' doc' types', buriedTable.shape? t = some (.union name' doc' types')) ∧
    synthesize buriedTable .standard = .error (.descriptor
      ⟨.notObjectMember "union 'N'" "union 'U'", "union 'U'"⟩) := by
  refine ⟨hasAcyclicAliases_buriedFile, by cbv, ?_, by cbv⟩
  exact ⟨_, .tail _ (.head _), _, _, _, rfl, _, .head _, _, _, _, rfl⟩

end DeclaredSchema
