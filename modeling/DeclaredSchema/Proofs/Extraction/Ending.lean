import DeclaredSchema.Proofs.Extraction.Depth
import DeclaredSchema.Proofs.Extraction.Lockstep

/-!
# Extraction ends

Declarations may refer to themselves and to each other in any way, and yet each way down through them
ends: a slot that is taken is not entered again, a base that is being visited is refused, an alias
that is being passed is refused or left as it is, and between two slots there are arrays only, which
have parts. So from some depth on the bound on nested resolutions is never met, and the outcome is
the same with any larger bound, that is, without one.

One way does not end. A name for an array of itself takes no slot, since it is an alias that names no
shape; and it is forgotten that the alias was passed when the elements of the array are resolved. A
file in which such a type is resolved has no descriptors, whatever the bound.

## Main results

* `extraction_ends` — with all arrays ending, there is an outcome that does not depend on the bound
* `not_hasEndlessArray_of_extractWithin` — with an endless array, no bound gives descriptors
* `extract_selfArrayFile` — an alias of an array of itself does not end
-/

namespace DeclaredSchema

namespace Extraction

variable {ctx : ExtractionContext} {file : SourceUnit} {unionsAsEnums : Bool} {depth depth' : Nat}
  {g : Graph} {n m : Node} {raw : Option String} {owner : String} {r : Registry}

/-! ### More depth -/

/-- Extractions of the same file have the same table. -/
theorem isLockstep_eq : IsLockstep (· = .endless) fun _ r r' => r = r' where
  keys h := by rw [h]
  length h := by rw [h]
  isRecord h _ := by rw [h]
  admits h _ _ := by rw [h]
  label h := .inl fun _ => by rw [h]
  add h _ _ := by rw [h]
  update h _ _ := by rw [h]
  finish h := h

/-- **More depth** makes no difference to a resolution that does not need it. -/
theorem resolve_inStep_succ (ctx : ExtractionContext) (depth : Nat) :
    ResolversInStep (· = .endless) (fun _ r r' => r = r') (resolve ctx depth)
      (resolve ctx (depth + 1)) := by
  induction depth with
  | zero => exact fun _ _ _ _ => agrees_of_excused rfl
  | succ depth ih =>
    exact resolveStep_inStep isLockstep_eq ih fun _ _ _ => namedUnion_inStep isLockstep_eq ih

theorem runWithin_agrees_succ : Agrees (· = .endless) Eq Eq (runWithin depth unionsAsEnums file)
    (runWithin (depth + 1) unionsAsEnums file) := by
  unfold runWithin
  split
  · exact agrees_throw _
  · have hrec := resolve_inStep_succ ⟨file.declarations, unionsAsEnums⟩ depth
    exact Agrees.forM fun d hd => declare_inStep isLockstep_eq hrec
      (fun _ _ _ => namedUnion_inStep isLockstep_eq hrec) hd fun _ => False

theorem extractWithin_succ (h : extractWithin depth unionsAsEnums file ≠ .error .endless) :
    extractWithin (depth + 1) unionsAsEnums file = extractWithin depth unionsAsEnums file := by
  cases hwithin : extractWithin depth unionsAsEnums file with
  | ok g =>
    obtain ⟨r, hrun, rfl⟩ := extractWithin_eq_ok_iff.mp hwithin
    obtain ⟨r', hrun', rfl⟩ := runWithin_agrees_succ.follows _ _ _ _ rfl hrun
    exact extractWithin_eq_ok_iff.mpr ⟨r, hrun', rfl⟩
  | error e =>
    have hrun := extractWithin_eq_error_iff.mp hwithin
    refine extractWithin_eq_error_iff.mpr ?_
    refine (runWithin_agrees_succ.fails _ _ _ rfl hrun).resolve_left ?_
    rintro rfl
    exact h hwithin

/-- **The outcome of an extraction** stands, once the bound is not met. -/
theorem extractWithin_of_le (hle : depth ≤ depth')
    (h : extractWithin depth unionsAsEnums file ≠ .error .endless) :
    extractWithin depth' unionsAsEnums file = extractWithin depth unionsAsEnums file := by
  induction hle with
  | refl => rfl
  | step _ ih => rw [extractWithin_succ (ih ▸ h), ih]

/-! ### The bound is not met -/

/-- The bound of extraction is not met, if all arrays end. -/
theorem extractWithin_ne_endless (hends : ¬HasEndlessArray ⟨file.declarations, unionsAsEnums⟩)
    (hdepth : depthBound file ≤ depth) :
    extractWithin depth unionsAsEnums file ≠ .error .endless := by
  intro h
  have hfails := extractWithin_eq_error_iff.mp h
  cases hduplicate : duplicate? [] file.declarations with
  | some d =>
    rw [runWithin, hduplicate] at hfails
    cases fails_failAt.mp hfails
  | none =>
    obtain ⟨hscope, -⟩ := isUnambiguous_of_duplicate?_eq_none hduplicate
    cases blamed_of_runWithin hduplicate hfails with
    | endless hdeep => exact not_deep hscope hends hdepth hdeep

/-- A file has descriptors only if all its arrays end, whatever the bound. -/
theorem not_hasEndlessArray_of_extractWithin
    (h : extractWithin depth unionsAsEnums file = .ok g) :
    ¬HasEndlessArray ⟨file.declarations, unionsAsEnums⟩ := by
  obtain ⟨r, hrun, -⟩ := extractWithin_eq_ok_iff.mp h
  obtain ⟨hscope, hcomplete, -⟩ := isComplete_of_runWithin hrun
  exact hcomplete.not_hasEndlessArray hscope

/-- **Extraction ends.** If all arrays end, then there is an outcome, descriptors or what is wrong
with a declaration, that extraction has with its own bound on nested resolutions and with any larger
one. -/
theorem extraction_ends (hends : ¬HasEndlessArray ⟨file.declarations, unionsAsEnums⟩) :
    ∃ outcome : Except DeclarationError Graph,
      extract unionsAsEnums file = outcome.mapError .declaration ∧
      ∀ depth, depthBound file ≤ depth →
        extractWithin depth unionsAsEnums file = outcome.mapError .declaration := by
  have hne := extractWithin_ne_endless hends (Nat.le_refl (depthBound file))
  have houtcome : ∃ outcome : Except DeclarationError Graph,
      extractWithin (depthBound file) unionsAsEnums file = outcome.mapError .declaration := by
    cases h : extractWithin (depthBound file) unionsAsEnums file with
    | ok g => exact ⟨.ok g, rfl⟩
    | error e =>
      cases e with
      | declaration e => exact ⟨.error e, rfl⟩
      | endless => exact absurd h hne
  obtain ⟨outcome, houtcome⟩ := houtcome
  refine ⟨outcome, extract_eq_extractWithin.trans houtcome, fun depth hdepth => ?_⟩
  rw [extractWithin_of_le hdepth hne, houtcome]

/-- Types that reach themselves through members, parameters and results of methods, bases, unions,
arrays, promises and aliases. -/
def cyclicFile : SourceUnit where
  imports := []
  declarations := [
    .interface ⟨"Base", [], [⟨"root", .reference "Node" [] ⟨1, 24⟩, false, false, none, ⟨1, 18⟩⟩], none,
      ⟨1, 11⟩⟩,
    .interface ⟨"Node", ["Base"], [
      ⟨"next", .function [⟨"from", .reference "Cursor" [] ⟨3, 14⟩, false⟩]
        (.reference "Promise" [.reference "Pair" [] ⟨3, 31⟩] ⟨3, 23⟩),
        false, false, none, ⟨3, 3⟩⟩,
      ⟨"all", .reference "Forest" [] ⟨4, 8⟩, false, false, none, ⟨4, 3⟩⟩], none, ⟨2, 11⟩⟩,
    .interface ⟨"Cursor", [], [
      ⟨"at", .reference "Node" [] ⟨6, 24⟩, false, false, none, ⟨6, 20⟩⟩,
      ⟨"more", .array (.reference "Cursor" [] ⟨6, 36⟩), false, false, none, ⟨6, 30⟩⟩], none, ⟨6, 11⟩⟩,
    .typeAlias ⟨"Forest", .array (.reference "Promise" [.reference "Node" [] ⟨7, 23⟩] ⟨7, 15⟩), none,
      ⟨7, 6⟩⟩,
    .typeAlias ⟨"Pair", .union [.reference "Node" [] ⟨8, 13⟩, .reference "Leaf" [] ⟨8, 20⟩], none,
      ⟨8, 6⟩⟩,
    .typeAlias ⟨"Leaf", .object [
      ⟨"pairs", .array (.reference "Pair" [] ⟨9, 22⟩), false, false, none, ⟨9, 15⟩⟩,
      ⟨"leaf", .reference "Promise" [.reference "Leaf" [] ⟨9, 44⟩] ⟨9, 36⟩, false, false, none, ⟨9, 30⟩⟩]
      ⟨9, 13⟩, none, ⟨9, 6⟩⟩]

set_option maxRecDepth 4000 in
theorem extraction_ends_cyclicFile : ¬HasEndlessArray ⟨cyclicFile.declarations, false⟩ ∧
    ∃ outcome : Except DeclarationError Graph,
      extract false cyclicFile = outcome.mapError .declaration ∧
      ∀ depth, depthBound cyclicFile ≤ depth →
        extractWithin depth false cyclicFile = outcome.mapError .declaration := by
  have hok : (extract false cyclicFile).isOk = true := by cbv
  have hends : ¬HasEndlessArray ⟨cyclicFile.declarations, false⟩ := by
    cases h : extract false cyclicFile with
    | ok g => exact not_hasEndlessArray_of_extractWithin (extract_eq_extractWithin ▸ h)
    | error e =>
      rw [h] at hok
      cases hok
  exact ⟨hends, extraction_ends hends⟩

/-! ### Endless arrays -/

/-- What is an array of something that is resolved without end is so, too. -/
theorem IsElement.fails_resolve (h : IsElement ctx.scope n m)
    (hm : ∀ raw owner r, Fails (resolve ctx depth m raw owner) r .endless) :
    Fails (resolve ctx (depth + 1) n raw owner) r .endless := by
  have harray : ∀ {k : Node} {t : Stripped}, Strips ctx.scope k t → t.node = m →
      Fails (Extraction.array ctx (resolve ctx depth) k owner) r .endless := by
    rintro k t ht rfl
    rw [Extraction.array, alternative, fails_bind, fails_bind]
    exact .inl (.inr ⟨t, r, yields_of_strips ht, hm _ _ _⟩)
  cases h with
  | array ht => exact harray ht rfl
  | arrayName hfind hname ht =>
    simp only [resolve, resolveStep, reference, hfind, undeclared, hname, if_true]
    exact harray ht rfl

/-- An endless array is resolved without end, whatever the bound, and from any table. -/
theorem fails_resolve_of_endless (h : Relation.TransGen (IsElement ctx.scope) n n) :
    Fails (resolve ctx depth n raw owner) r .endless := by
  induction depth generalizing n raw owner r with
  | zero => exact fails_throw.mpr rfl
  | succ depth ih =>
    -- the elements of an endless array are endless
    obtain ⟨m, helement, hback⟩ := Relation.TransGen.head'_iff.mp h
    exact helement.fails_resolve fun _ _ _ => ih (.tail' hback helement)

/-- A name for an array of what it names. -/
def selfArray : Alias := ⟨"A", .array (.reference "A" [] ⟨1, 10⟩), none, ⟨1, 6⟩⟩

/-- An interface with a member of this type. -/
def selfArrayHolder : Interface where
  name := "Q"
  bases := []
  members := [⟨"x", .reference "A" [] ⟨2, 18⟩, false, false, none, ⟨2, 15⟩⟩]
  doc := none
  position := ⟨2, 11⟩

def selfArrayFile : SourceUnit := ⟨[], [.typeAlias selfArray, .interface selfArrayHolder]⟩

theorem extractWithin_selfArrayFile (depth : Nat) :
    extractWithin depth false selfArrayFile = .error .endless := by
  let ctx : ExtractionContext := ⟨selfArrayFile.declarations, false⟩
  have hstrips : ∀ s p, Strips ctx.scope ⟨s, .reference "A" [] p⟩ ⟨selfArray.node, false, some "A"⟩ := by
    intro s p
    cbv
  have hcycle : IsElement ctx.scope selfArray.node selfArray.node := .array (hstrips _ _)
  have halias : Yields (declare ctx (resolve ctx depth) (.typeAlias selfArray)) Registry.empty ⟨⟩
      Registry.empty := by
    unfold Yields
    cbv
  have hmember : ∀ r, Fails (member ctx (resolve ctx depth)
      ⟨"Q", ⟨"Q", [0]⟩, ⟨"x", .reference "A" [] ⟨2, 18⟩, false, false, none, ⟨2, 15⟩⟩⟩) r .endless := by
    intro r
    rw [member]
    refine fails_bind.mpr (.inr ⟨_, _, yields_pure.mpr ⟨rfl, rfl⟩, ?_⟩)
    refine fails_bind.mpr (.inr ⟨_, _, yields_pure.mpr ⟨rfl, rfl⟩, ?_⟩)
    refine fails_bind.mpr (.inr ⟨_, _, yields_of_strips (hstrips _ _), ?_⟩)
    exact fails_bind.mpr (.inl (fails_resolve_of_endless (.single hcycle)))
  have hholder : Fails (declare ctx (resolve ctx depth) (.interface selfArrayHolder)) Registry.empty
      .endless := by
    refine fails_map.mpr ?_
    rw [interface]
    refine fails_bind.mpr (.inr ⟨none, _, yields_slotOf.mpr ⟨rfl, rfl⟩, ?_⟩)
    refine fails_bind.mpr (.inr ⟨_, _, yields_register.mpr ⟨rfl, rfl⟩, ?_⟩)
    refine fails_bind.mpr (.inl ?_)
    rw [foldLineage, fails_bind]
    refine .inr ⟨[], _, yields_pure.mpr ⟨rfl, rfl⟩, fails_bind.mpr (.inl ?_)⟩
    exact fails_bind.mpr (.inl (hmember _))
  refine extractWithin_eq_error_iff.mpr ?_
  change Fails (List.forM selfArrayFile.declarations (declare ctx (resolve ctx depth)))
    Registry.empty ExtractionError.endless
  rw [selfArrayFile, List.forM_eq_forM, List.forM_cons, List.forM_cons, fails_bind]
  exact .inr ⟨⟨⟩, _, halias, fails_bind.mpr (.inl hholder)⟩

/-- **An alias of an array of itself** does not end, neither with the bound that extraction takes nor
with any other. -/
theorem extract_selfArrayFile : extract false selfArrayFile = .error .endless ∧
    ∀ depth, extractWithin depth false selfArrayFile = .error .endless :=
  ⟨extract_eq_extractWithin.trans (extractWithin_selfArrayFile _), extractWithin_selfArrayFile⟩

end Extraction

end DeclaredSchema
