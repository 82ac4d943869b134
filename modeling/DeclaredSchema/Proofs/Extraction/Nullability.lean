import DeclaredSchema.Proofs.Declaration.Absence
import DeclaredSchema.Proofs.Extraction.Blame

/-!
# Members that may be null

Whether the type of a member admits the absent value is decided by stripping the type that is
written in the file. Where all unions are plain this finds every absent value; a union that hides
one behind a promise or behind a transparent alias lets it escape. A type is only refused for want of
other alternatives where there is none.

## Main definitions

* `promisedFile` — a member that promises a union with an absent value
* `hiddenFile`, `renamedFile` — unions that hide an absent value

## Main results

* `nullability_of_extraction` — what members admit, and which types are refused
* `hides_absence` — absent values that escape
-/

namespace DeclaredSchema

namespace Extraction

variable {ctx : ExtractionContext} {n : Node} {m : Member} {key : NodeKey} {shape : Shape}
  {keys : List NodeKey} {records : Nat → Prop}

/-- The members of a record that completes a slot are what its steps stand for. -/
theorem Fills.exists_recordOf (h : Fills ctx keys records (Resolved ctx) key shape)
    (hm : m ∈ shape.members) : ∃ steps s, RecordOf ctx key steps ∧ .member s ∈ steps ∧
      IsMember ctx.scope keys records s m := by
  cases h with
  | interface hd h =>
    obtain ⟨step, hstep, s, rfl, hs⟩ := exists_left_of_forall₂ h (mem_of_mem_lastOfEach hm)
    exact ⟨_, s, .interface hd, hstep, hs⟩
  | objectAlias hd hshape hobject h =>
    obtain ⟨s, hmem, hs⟩ := exists_left_of_forall₂ h hm
    exact ⟨_, s, .objectAlias hd hshape hobject, member_mem_writtenMembers.mpr hmem, hs⟩
  | object hn h =>
    obtain ⟨s, hmem, hs⟩ := exists_left_of_forall₂ h hm
    exact ⟨_, s, .object hn, member_mem_writtenMembers.mpr hmem, hs⟩
  | enumeration | unionAlias | textAlias | union => cases hm

theorem Needed.isAt (hscope : IsUnambiguous ctx.scope) (h : Needed ctx n) : IsAt ctx.scope n := by
  cases h with
  | declared hd hn => exact isAt_of_mem_declarationNeeds hscope hd hn
  | nested hm hn => exact isAt_of_mem_needs (hm.isAt hscope) hn

/-- A cause that leaves no alternative is a type that has none. -/
theorem Cause.of_noAlternative {e : DeclarationError} {owner : String} (h : Cause ctx e)
    (hfault : e.fault = .noAlternative owner) : ∃ n owner', Needed ctx n ∧
      strip ctx.scope owner' [] false none n = .error e ∧ ¬AdmitsOther ctx.scope n.expr := by
  cases h with
  | wrapping hn h => exact ⟨_, _, hn, h, not_admitsOther_of_strip h hfault⟩
  | type _ h | member _ _ h | base _ _ h =>
    rw [hfault] at h
    cases h
  | value _ _ _ h | mixed _ _ _ h =>
    rw [hfault] at h
    cases h

/-- **Nullability.** When extraction succeeds, each member admits the absent value exactly if null or
undefined is found when the wrappings of its written type are taken off. All that is found are
alternatives of the type, and where unions are plain all of these are found. When extraction fails
for want of an alternative, the type that it blames has none besides null and undefined. -/
theorem nullability_of_extraction (unionsAsEnums : Bool) (file : SourceUnit) :
    let ctx : ExtractionContext := ⟨file.declarations, unionsAsEnums⟩
    (∀ g, extract unionsAsEnums file = .ok g →
      ∃ r, Yields (run unionsAsEnums file) Registry.empty ⟨⟩ r ∧ r.graph = g ∧
        ∀ (slot : Nat) (key : NodeKey) (d : Descriptor) (m : Member), r.keys[slot]? = some key →
          g[slot]? = some d → m ∈ d.shape.members →
          ∃ steps s, RecordOf ctx key steps ∧ .member s ∈ steps ∧
            IsMember ctx.scope r.keys (recordsOf r) s m ∧
            (m.nullableType = true ↔ Alone ctx.scope (typeOf s)) ∧
            (m.nullableType = true → AdmitsAbsent ctx.scope (typeOf s).expr) ∧
            (HasPlainUnions ctx.scope →
              (m.nullableType = true ↔ AdmitsAbsent ctx.scope (typeOf s).expr))) ∧
    ∀ e owner, extract unionsAsEnums file = .error (.declaration e) →
      e.fault = .noAlternative owner → ∃ n owner', Needed ctx n ∧
        strip ctx.scope owner' [] false none n = .error e ∧ ¬AdmitsOther ctx.scope n.expr := by
  intro ctx
  refine ⟨fun g h => ?_, fun e owner h hfault => ?_⟩
  · obtain ⟨r, hrun, rfl⟩ := yields_of_extract h
    obtain ⟨hscope, hcomplete, -⟩ := isComplete_of_run hrun
    refine ⟨r, hrun, rfl, fun slot key d m hkey hd hm => ?_⟩
    obtain ⟨shape, hshape, hfills⟩ := hcomplete.filled hkey id
    obtain rfl := Option.some.inj (hd.symm.trans hshape)
    obtain ⟨steps, s, hrecord, hs, hmember⟩ := hfills.exists_recordOf hm
    obtain ⟨t, hstrips, -, hnullable⟩ := hmember.type
    have hat : IsAt ctx.scope (typeOf s) := (hrecord.needed hs typeOf_mem_parts).isAt hscope
    have halone := nullable_iff_alone hstrips
    rw [← hnullable] at halone
    refine ⟨steps, s, hrecord, hs, hmember, halone, fun h => (halone.mp h).admitsAbsent, ?_⟩
    intro hplain
    rw [hnullable]
    exact nullable_iff_admitsAbsent hplain hat hstrips
  · have hfails := fails_of_extract h
    cases hduplicate : duplicate? [] file.declarations with
    | some d =>
      rw [run, hduplicate, fails_failAt] at hfails
      cases hfails
      cases hfault
    | none =>
      cases blamed_of_run hduplicate hfails with
      | declaration hcause => exact hcause.of_noAlternative hfault

/-- A union with null, and a member that promises a value of it. -/
def promisedFile : SourceUnit where
  imports := []
  declarations := [
    .typeAlias ⟨"M", .union [.keyword .string, .keyword .number, .keyword .null], none, ⟨1, 6⟩⟩,
    .interface ⟨"A", [], [⟨"x", .reference "Promise" [.reference "M" [] ⟨2, 26⟩] ⟨2, 18⟩, false,
      false, none, ⟨2, 15⟩⟩], none, ⟨2, 11⟩⟩]

def promisedTable : Graph := [
  ⟨1, .union (some "M") none [.primitive ⟨"string", "string", none⟩,
    .primitive ⟨"number", "number", none⟩]⟩,
  ⟨2, .record "A" none [⟨"x", .node 0, none, false, true, none, none⟩]⟩]

/-- The type expressions of the file: the bodies and what they are made of. -/
def promisedParts : List TypeExpr :=
  let name : TypeExpr := .reference "M" [] ⟨2, 26⟩
  let promise : TypeExpr := .reference "Promise" [name] ⟨2, 18⟩
  [.union [.keyword .string, .keyword .number, .keyword .null],
    .object [⟨"x", promise, false, false, none, ⟨2, 15⟩⟩] ⟨2, 11⟩, promise, name,
    .keyword .string, .keyword .number, .keyword .null]

theorem mem_promisedParts {s : Site} {e : TypeExpr} (h : IsAt promisedFile.declarations ⟨s, e⟩) :
    e ∈ promisedParts := by
  refine h.induction (P := (· ∈ promisedParts)) ?_ fun e he i child hchild => ?_
  · simp [promisedFile, promisedParts, Declaration.body?]
  · simp only [promisedParts, List.mem_cons, List.not_mem_nil, or_false] at he
    rcases he with rfl | rfl | rfl | rfl | rfl | rfl | rfl
    · exact (List.drop_subset 4 promisedParts) (List.mem_of_getElem? hchild)
    · obtain ⟨p, hp, rfl⟩ := Option.map_eq_some_iff.mp hchild
      obtain rfl := List.mem_singleton.mp (List.mem_of_getElem? hp)
      simp [promisedParts]
    · obtain rfl := List.mem_singleton.mp (List.mem_of_getElem? hchild)
      simp [promisedParts]
    all_goals cases hchild

/-- The only union of the file has no references in it. -/
theorem hasPlainUnions_promisedFile : HasPlainUnions promisedFile.declarations := by
  intro s es hat e he
  obtain rfl : es = [.keyword .string, .keyword .number, .keyword .null] := by
    simpa [promisedParts] using mem_promisedParts hat
  simp only [List.mem_cons, List.not_mem_nil, or_false] at he
  rcases he with rfl | rfl | rfl <;> trivial

/-- A union with another name for null, and a member of this type. -/
def renamedFile : SourceUnit where
  imports := []
  declarations := [
    .typeAlias ⟨"N", .keyword .null, none, ⟨1, 6⟩⟩,
    .typeAlias ⟨"P", .union [.keyword .string, .keyword .number, .reference "N" [] ⟨2, 28⟩], none,
      ⟨2, 6⟩⟩,
    .interface ⟨"A", [], [⟨"x", .reference "P" [] ⟨3, 18⟩, false, false, none, ⟨3, 15⟩⟩], none,
      ⟨3, 11⟩⟩]

theorem nullability_of_extraction_promisedFile :
    HasPlainUnions promisedFile.declarations ∧
    extract false promisedFile = .ok promisedTable ∧
    (∃ r key steps sig, Yields (run false promisedFile) Registry.empty ⟨⟩ r ∧
      r.keys[1]? = some key ∧ RecordOf ⟨promisedFile.declarations, false⟩ key steps ∧
      .member sig ∈ steps ∧ AdmitsAbsent promisedFile.declarations (typeOf sig).expr) ∧
    extract false renamedFile = .error (.declaration (noAlternative "P")) ∧
    ∃ n, Needed ⟨renamedFile.declarations, false⟩ n ∧
      ¬AdmitsOther renamedFile.declarations n.expr := by
  have hextract : extract false promisedFile = .ok promisedTable := by cbv
  have hrefused : extract false renamedFile = .error (.declaration (noAlternative "P")) := by cbv
  refine ⟨hasPlainUnions_promisedFile, hextract, ?_, hrefused, ?_⟩
  · obtain ⟨r, hrun, hgraph, hmembers⟩ := (nullability_of_extraction false promisedFile).1 _ hextract
    obtain ⟨-, hcomplete, -⟩ := isComplete_of_run hrun
    have hslot : 1 < r.keys.length := by
      rw [hcomplete.length, hgraph]
      decide
    have hkey : r.keys[1]? = some r.keys[1] := List.getElem?_eq_getElem hslot
    obtain ⟨steps, sig, hrecord, hsig, -, -, -, hplain⟩ :=
      hmembers 1 _ _ _ hkey rfl (List.mem_singleton_self _)
    exact ⟨r, _, steps, sig, hrun, hkey, hrecord, hsig,
      (hplain hasPlainUnions_promisedFile).mp rfl⟩
  · obtain ⟨n, -, hn, -, hother⟩ :=
      (nullability_of_extraction false renamedFile).2 _ "P" hrefused rfl
    exact ⟨n, hn, hother⟩

/-! ### Absent values that escape -/

/-- A union with a promise of something that may be null, and a member of this type. -/
def hiddenFile : SourceUnit where
  imports := []
  declarations := [
    .typeAlias ⟨"M", .union [.keyword .string, .keyword .number, .keyword .null], none, ⟨1, 6⟩⟩,
    .typeAlias ⟨"P", .union [.reference "Promise" [.reference "M" [] ⟨2, 18⟩] ⟨2, 10⟩,
      .keyword .boolean], none, ⟨2, 6⟩⟩,
    .interface ⟨"A", [], [⟨"x", .reference "P" [] ⟨3, 18⟩, false, false, none, ⟨3, 15⟩⟩], none,
      ⟨3, 11⟩⟩]

def hiddenTable : Graph := [
  ⟨1, .union (some "M") none [.primitive ⟨"string", "string", none⟩,
    .primitive ⟨"number", "number", none⟩]⟩,
  ⟨2, .union (some "P") none [.node 0, .primitive ⟨"boolean", "boolean", none⟩]⟩,
  ⟨3, .record "A" none [⟨"x", .node 1, none, false, false, none, none⟩]⟩]

/-- **Hidden absent values.** A promise in a union hides the null in it, and the member is not
nullable. Another name for null in a union is refused, and the message says of the union that it has
no other alternative. -/
theorem hides_absence :
    extract false hiddenFile = .ok hiddenTable ∧
    AdmitsAbsent hiddenFile.declarations (.reference "P" [] ⟨3, 18⟩) ∧
    extract false renamedFile = .error (.declaration (noAlternative "P")) ∧
    AdmitsOther renamedFile.declarations (.reference "P" [] ⟨3, 18⟩) := by
  refine ⟨by cbv, ⟨.keyword .null, ?_, rfl⟩, by cbv,
    ⟨.keyword .string, ?_, rfl, rfl, fun _ => not_down_keyword⟩⟩
  · refine .head (.alias rfl) (.head (.member (.head _)) (.head .promise ?_))
    refine .head (.alias rfl) (.head (.member ?_) .refl)
    exact .tail _ (.tail _ (.head _))
  · exact .head (.alias rfl) (.head (.member (.head _)) .refl)

end Extraction

end DeclaredSchema
