import DeclaredSchema.Proofs.Extraction.Cause

/-!
# Why extraction fails

Whoever asks for a slot that is there gets it, so an extraction that fails does so while it
completes a new slot, or at a type without one. Going down from type to type it ends at something
that is wrong with the file, or it has used up its depth on the way.

## Main results

* `interface_blamed`, `enumeration_blamed`, `aliasSlot?_blamed` — the slots of declarations
* `inlineObject_blamed`, `inlineUnion_blamed` — the slots of inline types
* `resolve_blamed` — resolutions fail for a cause, or go down as deep as is allowed
* `blamed_of_run` — extraction does so
-/

namespace DeclaredSchema

namespace Extraction

variable {ctx : ExtractionContext} {U : Nat → Prop} {r r' : Registry} {n m : Node} {s : Signature}
  {t : Stripped} {owner : String} {u : PUnit} {key : NodeKey} {shape : Shape} {slot : Nat}
  {seen seen' : List NodeKey} {depth : Nat} {e : ExtractionError}

/-- What is new among more keys is new among fewer. -/
theorem Descent.mono (hseen : seen' ⊆ seen) (h : Descent ctx seen depth n) :
    Descent ctx seen' depth n := by
  induction h generalizing seen' with
  | stop => exact .stop
  | element hkey hm ht _ ih => exact .element hkey hm ht (ih hseen)
  | slot hkey hmay hnew hm _ ih =>
    exact .slot hkey hmay (fun h => hnew (hseen h)) hm (ih (List.cons_subset_cons _ hseen))

theorem Deep.mono (hseen : seen' ⊆ seen) (h : Deep ctx seen depth) : Deep ctx seen' depth := by
  obtain ⟨n, hn, hdescent⟩ := h
  exact ⟨n, hn, hdescent.mono hseen⟩

/-- A failure while the slot of a key is found or taken: the slot is new. -/
structure FailsAnew (ctx : ExtractionContext) (r : Registry) (seen : List NodeKey) (depth : Nat)
    (key : NodeKey) (e : ExtractionError) : Prop where
  free : slotIn r.keys key = none
  may : MayTake ctx (Resolved ctx) key
  justified : Justifies ctx (Deep ctx (key :: seen) depth) e

/-- A type whose slot cannot be completed leads down to the types within. -/
theorem FailsAnew.descent (h : FailsAnew ctx r seen depth key e) (hseen : seen ⊆ r.keys)
    (hkey : keyOf? ctx.scope n = some key) : Justifies ctx (Descent ctx seen (depth + 1) n) e :=
  h.justified.imp fun ⟨_, hm, hdescent⟩ =>
    .slot hkey h.may (fun hmem => slotIn_eq_none_iff.mp h.free (hseen hmem)) hm hdescent

/-- A slot that is found does not fail. -/
theorem fails_of_slotOf {fresh : Extract Nat} (h : Fails (do
      match ← slotOf key with
      | some slot => return slot
      | none => fresh) r e) : slotIn r.keys key = none ∧ Fails fresh r e := by
  rcases fails_bind.mp h with h | ⟨found, a, hfound, h⟩
  · exact absurd h fails_slotOf
  · obtain ⟨hfound, rfl⟩ := yields_slotOf.mp hfound
    cases found with
    | some slot => exact absurd h fails_pure
    | none => exact ⟨hfound.symm, h⟩

/-- A record that is not completed fails at its members. -/
theorem fails_record {ms : Extract (List Member)} (h : Fails (do
      let slot ← register key shape
      let ms ← ms
      change slot (Shape.withMembers ms)
      return slot) r e) : Fails ms (r.add key shape) e := by
  simp only [fails_bind, fails_register, fails_change, fails_pure, yields_register, false_or,
    exists_false, and_false, or_false] at h
  obtain ⟨_, _, ⟨-, rfl⟩, h⟩ := h
  exact h

theorem cons_subset_keys_add (hseen : seen ⊆ r.keys) : key :: seen ⊆ (r.add key shape).keys := by
  rw [Registry.keys_add]
  refine List.cons_subset.mpr ⟨List.mem_append_right _ (List.mem_singleton_self _), ?_⟩
  exact List.subset_append_of_subset_left _ hseen

section Step

variable {rec : Resolver} (hscope : IsUnambiguous ctx.scope)
  (hrec : IsResolver ctx (Resolved ctx) rec) (hblamed : IsBlamed ctx rec depth)

/-! ### Declarations -/

include hscope hrec hblamed in
theorem interface_blamed (hunder : Underway ctx U r) (hseen : seen ⊆ r.keys) {d : Interface}
    (hd : .interface d ∈ ctx.scope) (h : Fails (interface ctx rec d) r e) :
    FailsAnew ctx r seen depth (.declared d.name) e := by
  obtain ⟨hfree, h⟩ := fails_of_slotOf h
  have hmay : MayTake ctx (Resolved ctx) (.declared d.name) := ⟨.interface d, hd, rfl, rfl⟩
  refine ⟨hfree, hmay, ?_⟩
  exact foldLineage_blamed hscope hrec hblamed (hunder.add hfree hmay fun _ _ => rfl)
    (cons_subset_keys_add hseen) hd (fails_record h)

theorem enumValue_blamed {d : Enumeration} (hd : .enumeration d ∈ ctx.scope) {m : EnumEntry}
    (hm : m ∈ d.members) {E : Prop} (h : Fails (enumValue d m) r e) : Justifies ctx E e := by
  unfold enumValue at h
  split at h
  · exact absurd h fails_pure
  · next hvalue =>
    rw [fails_failAt.mp h]
    exact .declaration (.value hd hm hvalue rfl)

theorem enumeration_blamed {d : Enumeration} (hd : .enumeration d ∈ ctx.scope)
    (h : Fails (enumeration d) r e) : FailsAnew ctx r seen depth (.declared d.name) e := by
  obtain ⟨hfree, h⟩ := fails_of_slotOf h
  refine ⟨hfree, ⟨.enumeration d, hd, rfl, rfl⟩, ?_⟩
  simp only [fails_bind, fails_register, fails_change, fails_pure, yields_register, false_or,
    exists_false, and_false, or_false] at h
  obtain ⟨_, _, ⟨-, rfl⟩, h⟩ := h
  obtain ⟨m, hm, _, -, hfails⟩ := Fails.mapM (fun _ => True) (fun _ _ _ _ _ _ _ => trivial) h trivial
  exact enumValue_blamed hd hm hfails

/-! ### Unions -/

include hscope hrec hblamed in
theorem fillUnion_blamed {ns : List Node} (hunder : Underway ctx U r) (hslot : U slot)
    (hseen : seen ⊆ r.keys) (hns : ∀ n ∈ ns, Needed ctx n)
    (h : Fails (fillUnion ctx rec slot owner ns) r e) : Justifies ctx (Deep ctx seen depth) e := by
  induction ns generalizing r with
  | nil => exact absurd h fails_change
  | cons n rest ih =>
    have hn := hns n (List.mem_cons_self ..)
    simp only [fillUnion, fails_bind, fails_change, yields_change, false_or] at h
    rcases h with h | ⟨t, a, ht, _, _, rfl, h⟩
    · refine (alternative_blamed hblamed hunder hseen hn h).imp ?_
      rintro ⟨t, ht, hdescent⟩
      exact ⟨t.node, hn.resolved ht, hdescent⟩
    · obtain ⟨hkeeps, -⟩ := alternative_keeps hrec hunder.inv (fun t ht => hn.resolved ht) ht
      have hunder' := (hunder.keeps hscope hkeeps).change hslot (keepsRecords_addAlternative t)
      exact ih hunder' (List.Subset.trans hseen hkeeps.grows.keys.subset)
        (fun m hm => hns m (List.mem_cons_of_mem _ hm)) h

include hscope hrec hblamed in
theorem newUnion_blamed {name doc : Option String} {ns : List Node} (hunder : Underway ctx U r)
    (hseen : seen ⊆ r.keys) (hfree : slotIn r.keys key = none)
    (hmay : MayTake ctx (Resolved ctx) key) (hunion : ∀ steps, ¬RecordOf ctx key steps)
    (hns : ∀ n ∈ ns, Needed ctx n) (h : Fails (newUnion ctx rec key name doc owner ns) r e) :
    Justifies ctx (Deep ctx (key :: seen) depth) e := by
  simp only [newUnion, fails_bind, fails_register, fails_pure, yields_register, false_or,
    exists_false, and_false, or_false] at h
  obtain ⟨_, _, ⟨rfl, rfl⟩, h⟩ := h
  exact fillUnion_blamed hscope hrec hblamed
    (hunder.add hfree hmay fun steps hrecord => absurd hrecord (hunion steps)) (.inr rfl)
    (cons_subset_keys_add hseen) hns h

/-- An alias of several alternatives is no record. -/
theorem not_recordOf_alias (hscope : IsUnambiguous ctx.scope) {d : Alias}
    (hd : .typeAlias d ∈ ctx.scope) (hunion : 2 ≤ (alternatives ctx.scope d.node).length)
    (steps : List LineageStep) : ¬RecordOf ctx (.declared d.name) steps := by
  intro h
  generalize hkey : NodeKey.declared d.name = key at h
  cases h with
  | interface hd' => cases hscope.eq hd hd' (NodeKey.declared.inj hkey)
  | objectAlias hd' hshape hobject =>
    cases hscope.eq hd hd' (NodeKey.declared.inj hkey)
    rw [hobject] at hunion
    exact absurd hunion (by simp)
  | object => cases hkey

include hscope hrec hblamed in
theorem namedUnion_blamed (hunder : Underway ctx U r) (hseen : seen ⊆ r.keys) {d : Alias}
    (hd : .typeAlias d ∈ ctx.scope) (hshape : namesShape ctx.scope d = true)
    (hunion : 2 ≤ (alternatives ctx.scope d.node).length)
    (hfree : slotIn r.keys (.declared d.name) = none)
    (h : Fails (namedUnion ctx rec d (alternatives ctx.scope d.node)) r e) :
    Justifies ctx (Deep ctx (.declared d.name :: seen) depth) e := by
  have hnew : isTextEnumeration ctx (alternatives ctx.scope d.node) = false →
      Fails (newUnion ctx rec (.declared d.name) (some d.name) d.doc d.name
        (alternatives ctx.scope d.node)) r e →
      Justifies ctx (Deep ctx (.declared d.name :: seen) depth) e := by
    intro htexts h
    refine newUnion_blamed hscope hrec hblamed hunder hseen hfree ⟨.typeAlias d, hd, rfl, hshape⟩
      (not_recordOf_alias hscope hd hunion) (fun n hn => .declared hd ?_) h
    rwa [declarationNeeds_union hshape hunion htexts]
  have htexts := all_text_eq (alternatives ctx.scope d.node)
  unfold namedUnion at h
  simp only [fails_ite, fails_register, and_false, false_or] at h
  rcases h with ⟨hliterals, hall, h⟩ | ⟨hliterals, h⟩
  · rw [Bool.and_eq_true] at hliterals
    rw [hliterals.2, Bool.true_and, Bool.eq_false_iff.mpr hall] at htexts
    rcases h with ⟨hany, h⟩ | ⟨-, h⟩
    · rw [fails_failAt.mp h]
      refine .declaration (.mixed hd hshape ?_ rfl)
      rw [isMixed, hliterals.1, hliterals.2, hany, Bool.eq_false_iff.mpr hall]
      rfl
    · refine hnew ?_ h
      rw [isTextEnumeration, htexts, Bool.and_false]
  · refine hnew ?_ h
    rw [isTextEnumeration, htexts, ← Bool.and_assoc, Bool.eq_false_iff.mpr hliterals,
      Bool.false_and]

include hscope hrec hblamed in
theorem aliasSlot?_blamed (hunder : Underway ctx U r) (hseen : seen ⊆ r.keys) {d : Alias}
    (hd : .typeAlias d ∈ ctx.scope) (h : Fails (aliasSlot? ctx rec d) r e) :
    FailsAnew ctx r seen depth (.declared d.name) e := by
  rw [aliasSlot?, fails_bind] at h
  rcases h with h | ⟨known, a, hknown, h⟩
  · exact absurd h fails_slotOf
  obtain ⟨hknown, rfl⟩ := yields_slotOf.mp hknown
  cases known with
  | some slot => exact absurd h fails_pure
  | none =>
    have hfree := hknown.symm
    simp only [fails_ite, fails_pure, and_false, false_or] at h
    obtain ⟨hshape, h⟩ := h
    have hshape : namesShape ctx.scope d = true := by simpa using hshape
    have hmay : MayTake ctx (Resolved ctx) (.declared d.name) := ⟨.typeAlias d, hd, rfl, hshape⟩
    refine ⟨hfree, hmay, ?_⟩
    split at h
    · next site ps position hobject =>
      simp only [fails_bind, fails_register, fails_change, fails_pure, yields_register, false_or,
        exists_false, and_false, or_false] at h
      obtain ⟨_, _, ⟨-, rfl⟩, h⟩ := h
      exact members_blamed hscope hrec hblamed (hunder.add hfree hmay fun _ _ => rfl)
        (cons_subset_keys_add hseen) (.objectAlias hd hshape hobject)
        (fun s hs => member_mem_writtenMembers.mpr hs) h
    · next hobject =>
      simp only [fails_bind, fails_pure, exists_false, and_false, or_false] at h
      exact namedUnion_blamed hscope hrec hblamed hunder hseen hd hshape
        (two_le_length_of_namesShape hshape hobject) hfree h

/-! ### Inline types -/

include hscope hrec hblamed in
theorem inlineObject_blamed (hunder : Underway ctx U r) (hseen : seen ⊆ r.keys) {site : Site}
    {ps : List (Property TypeExpr)} {position : Position}
    (hn : Resolved ctx ⟨site, .object ps position⟩)
    (h : Fails (inlineObject ctx rec site ps position owner) r e) :
    FailsAnew ctx r seen depth (.inline site) e := by
  obtain ⟨hfree, h⟩ := fails_of_slotOf h
  have hmay : MayTake ctx (Resolved ctx) (.inline site) := ⟨_, hn, rfl, .inl rfl⟩
  refine ⟨hfree, hmay, ?_⟩
  have hkey : RecordOf ctx (.inline site) (writtenMembers owner site ps) := .object hn
  exact members_blamed hscope hrec hblamed (hunder.add hfree hmay fun _ _ => rfl)
    (cons_subset_keys_add hseen) hkey (fun s hs => member_mem_writtenMembers.mpr hs)
    (fails_record h)

include hscope hrec hblamed in
theorem inlineUnion_blamed (hunder : Underway ctx U r) (hseen : seen ⊆ r.keys) {site : Site}
    {es : List TypeExpr} (hn : Resolved ctx ⟨site, .union es⟩)
    (h : Fails (inlineUnion ctx rec ⟨site, .union es⟩ owner) r e) :
    FailsAnew ctx r seen depth (.inline site) e := by
  obtain ⟨hfree, h⟩ := fails_of_slotOf h
  have hmay : MayTake ctx (Resolved ctx) (.inline site) := ⟨_, hn, rfl, .inr rfl⟩
  have hunion : ∀ steps, ¬RecordOf ctx (.inline site) steps := by
    rintro steps (_ | _ | hn')
    cases (hn.isAt hscope).unique (hn'.isAt hscope)
  exact ⟨hfree, hmay, newUnion_blamed hscope hrec hblamed hunder hseen hfree hmay hunion
    (fun m hm => .nested hn hm) h⟩

/-! ### Type expressions -/

include hblamed in
/-- An element that is not resolved leads down by one. -/
theorem array_blamed (hunder : Underway ctx U r) (hseen : seen ⊆ r.keys) (hn : Resolved ctx n)
    (hkey : keyOf? ctx.scope n = none) (hm : m ∈ needs ctx n)
    (h : Fails (array ctx rec m owner) r e) :
    Justifies ctx (Descent ctx seen (depth + 1) n) e := by
  simp only [array, fails_bind, fails_pure, exists_false, and_false, or_false] at h
  refine (alternative_blamed hblamed hunder hseen (.nested hn hm) h).imp ?_
  rintro ⟨t, ht, hdescent⟩
  exact .element hkey hm ht hdescent

include hblamed in
theorem undeclared_blamed (hunder : Underway ctx U r) (hseen : seen ⊆ r.keys) {site : Site}
    {name : String} {arguments : List TypeExpr} {position : Position}
    (hn : Resolved ctx ⟨site, .reference name arguments position⟩)
    (hfind : ctx.scope.find? name = none)
    (h : Fails (undeclared ctx rec site name arguments position owner) r e) :
    Justifies ctx (Descent ctx seen (depth + 1) ⟨site, .reference name arguments position⟩) e := by
  unfold undeclared at h
  simp only [fails_ite, fails_pure, and_false, or_false] at h
  rcases h with ⟨hname, h⟩ | ⟨hname, ⟨rfl, h⟩ | ⟨-, hmany, h⟩⟩
  · split at h
    · next element =>
      refine array_blamed hblamed hunder hseen hn rfl ?_ h
      simp only [needs, hfind, hname]
      exact List.mem_singleton_self _
    · next hother =>
      rw [fails_failAt.mp h]
      exact .declaration (.type hn (.arrayArguments hfind hother hname))
  · rw [fails_failAt.mp h]
    exact .declaration (.type hn (.misplacedDefault hfind))
  · rw [fails_failAt.mp h]
    refine .declaration (.type hn (.unknownGeneric hfind (by simpa using hname) ?_))
    simpa using hmany

include hscope hrec hblamed in
theorem reference_blamed (hunder : Underway ctx U r) (hseen : seen ⊆ r.keys) {site : Site}
    {name : String} {arguments : List TypeExpr} {position : Position}
    (hn : Resolved ctx ⟨site, .reference name arguments position⟩)
    (h : Fails (reference ctx rec site name arguments position owner) r e) :
    Justifies ctx (Descent ctx seen (depth + 1) ⟨site, .reference name arguments position⟩) e := by
  unfold reference at h
  split at h
  · next hfind => exact undeclared_blamed hblamed hunder hseen hn hfind h
  · next d hfind =>
    have hd : d ∈ ctx.scope := Scope.mem_of_find? hfind
    have hname : d.name = name := Scope.name_of_find? hfind
    rw [fails_ite] at h
    rcases h with ⟨hmany, h⟩ | ⟨hempty, h⟩
    · rw [fails_failAt.mp h]
      exact .declaration (.type hn (.notGeneric hfind (by simpa using hmany)))
    · have hnil : arguments = [] := by simpa using hempty
      subst hnil
      have hkey : keyOf? ctx.scope ⟨site, .reference name [] position⟩ = some (.declared d.name) := by
        simp only [keyOf?, hfind, hname, Option.map_some]
      cases d with
      | interface d =>
        simp only [fails_bind, fails_pure, exists_false, and_false, or_false] at h
        exact (interface_blamed hscope hrec hblamed hunder hseen hd h).descent hseen hkey
      | enumeration d =>
        simp only [fails_bind, fails_pure, exists_false, and_false, or_false] at h
        exact (enumeration_blamed hd h).descent hseen hkey
      | typeAlias d =>
        rcases fails_bind.mp h with h | ⟨found, a, hfound, h⟩
        · exact (aliasSlot?_blamed hscope hrec hblamed hunder hseen hd h).descent hseen hkey
        · cases found with
          | some slot => exact absurd h fails_pure
          | none =>
            obtain ⟨-, -, hshape⟩ := aliasSlot?_keeps hrec isClosed_resolved hunder.inv hd hfound
            rw [fails_failFor.mp h]
            exact .declaration (.type hn (.unresolvedAlias hfind (hshape rfl)))

theorem keywordType_blamed {site : Site} {word : TypeKeyword} {raw : Option String} {E : Prop}
    (hn : Resolved ctx ⟨site, .keyword word⟩) (h : Fails (keywordType word raw owner) r e) :
    Justifies ctx E e := by
  unfold keywordType at h
  split at h
  · exact absurd h fails_pure
  · exact absurd h fails_pure
  · exact absurd h fails_pure
  · next hstring hnumber hboolean =>
    rw [fails_failFor.mp h]
    exact .declaration (.type hn (.keyword ⟨hstring, hnumber, hboolean⟩))

include hscope hrec hblamed in
/-- **One step** fails for a cause if the nested resolutions do. -/
theorem resolveStep_blamed : IsBlamed ctx (resolveStep ctx rec) (depth + 1) := by
  rintro ⟨site, x⟩ raw owner U r e seen hunder hseen hn h
  cases x with
  | keyword word => exact keywordType_blamed hn h
  | literal value => exact absurd h fails_pure
  | array element =>
    exact array_blamed hblamed hunder hseen hn rfl (List.mem_singleton_self _) h
  | object ps position =>
    simp only [resolveStep, fails_bind, fails_pure, exists_false, and_false, or_false] at h
    exact (inlineObject_blamed hscope hrec hblamed hunder hseen hn h).descent hseen rfl
  | union es =>
    simp only [resolveStep, fails_bind, fails_pure, exists_false, and_false, or_false] at h
    exact (inlineUnion_blamed hscope hrec hblamed hunder hseen hn h).descent hseen rfl
  | reference name arguments position =>
    exact reference_blamed hscope hrec hblamed hunder hseen hn h
  | function parameters result =>
    rw [fails_failFor.mp h]
    exact .declaration (.type hn .function)

end Step

/-- **Resolution** fails for a cause, or goes down as deep as is allowed. -/
theorem resolve_blamed (hscope : IsUnambiguous ctx.scope) (depth : Nat) :
    IsBlamed ctx (resolve ctx depth) depth := by
  induction depth with
  | zero =>
    intro n raw owner U r e seen _ _ _ h
    rw [fails_throw.mp h]
    exact .endless .stop
  | succ depth ih =>
    exact resolveStep_blamed hscope (resolve_isResolver isClosed_resolved depth) ih

/-! ### Files -/

theorem declare_blamed (hscope : IsUnambiguous ctx.scope) (hunder : Underway ctx U r)
    {d : Declaration} (hd : d ∈ ctx.scope) (h : Fails (declare ctx (resolve ctx depth) d) r e) :
    Justifies ctx (Deep ctx [] depth) e := by
  have hrec : IsResolver ctx (Resolved ctx) (resolve ctx depth) :=
    resolve_isResolver isClosed_resolved depth
  have hanew : ∀ {key}, FailsAnew ctx r [] depth key e → Justifies ctx (Deep ctx [] depth) e :=
    fun hanew => hanew.justified.imp (Deep.mono (List.nil_subset _))
  cases d with
  | interface d =>
    exact hanew (interface_blamed hscope hrec (resolve_blamed hscope depth) hunder
      (List.nil_subset _) hd (fails_map.mp h))
  | enumeration d => exact hanew (enumeration_blamed hd (fails_map.mp h))
  | typeAlias d =>
    exact hanew (aliasSlot?_blamed hscope hrec (resolve_blamed hscope depth) hunder
      (List.nil_subset _) hd (fails_map.mp h))

/-- **Extraction** fails for a cause, or goes down as deep as is allowed, if no name is declared
twice. -/
theorem blamed_of_runWithin {unionsAsEnums : Bool} {file : SourceUnit}
    (hnone : duplicate? [] file.declarations = none)
    (h : Fails (runWithin depth unionsAsEnums file) Registry.empty e) :
    Justifies ⟨file.declarations, unionsAsEnums⟩
      (Deep ⟨file.declarations, unionsAsEnums⟩ [] depth) e := by
  obtain ⟨hscope, -⟩ := isUnambiguous_of_duplicate?_eq_none hnone
  rw [runWithin, hnone] at h
  obtain ⟨d, hd, a, hunder, hfails⟩ :=
    Fails.forM (Underway ⟨file.declarations, unionsAsEnums⟩ fun _ => False)
      (fun d hd a v b hunder hdeclare => by
        obtain ⟨found, hfound⟩ := exists_yields_slotFor hdeclare
        obtain ⟨hkeeps, -⟩ := slotFor_keeps isClosed_resolved _ hunder.inv hd hfound
        exact hunder.keeps hscope hkeeps) h .empty
  exact declare_blamed hscope hunder hd hfails

theorem blamed_of_run {unionsAsEnums : Bool} {file : SourceUnit}
    (hnone : duplicate? [] file.declarations = none)
    (h : Fails (run unionsAsEnums file) Registry.empty e) :
    Justifies ⟨file.declarations, unionsAsEnums⟩
      (Deep ⟨file.declarations, unionsAsEnums⟩ [] (depthBound file)) e :=
  blamed_of_runWithin hnone h

theorem fails_of_extract {unionsAsEnums : Bool} {file : SourceUnit} {e : ExtractionError}
    (h : extract unionsAsEnums file = .error e) :
    Fails (run unionsAsEnums file) Registry.empty e :=
  extractWithin_eq_error_iff.mp (extract_eq_extractWithin ▸ h)

end Extraction

end DeclaredSchema
