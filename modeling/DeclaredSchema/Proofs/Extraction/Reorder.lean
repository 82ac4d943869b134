import DeclaredSchema.Proofs.Extraction.Acceptance
import DeclaredSchema.Proofs.Extraction.Depth
import DeclaredSchema.Proofs.Extraction.Widening
import DeclaredSchema.Synthesis

/-!
# Files in another order

A file may be written in another order and together with declarations that it does not use. As long
as no name is declared twice, each name still finds its declaration, so the file means the same.

Extraction fails for what is wrong with a file or for types without end, and neither depends on the
order. A default is the exception, since it is checked against the table as it stands.

## Main definitions

* `AddsUnused` — a file holds the declarations of another one, in any order, and unused ones
* `Scope.mentions` — the names that are used in a scope

## Main results

* `widensTo_of_addsUnused` — the file means the same
* `extract_iff_of_perm` — extraction succeeds in any order
-/

namespace DeclaredSchema

/-- The file `u'` holds the declarations of `u`, in any order, and the declarations `extra`, whose
names are neither declared nor mentioned in `u`, and are not those of the roots. -/
structure AddsUnused (extra : List Declaration) (u u' : SourceUnit) : Prop where
  perm : u'.declarations.Perm (u.declarations ++ extra)
  undeclared : ∀ d ∈ extra, Scope.find? u.declarations d.name = none
  unmentioned : ∀ d ∈ extra, ¬IsMentioned u.declarations d.name
  unrooted : ∀ d ∈ extra, d.name ≠ Synthesis.queryRoot ∧ d.name ≠ Synthesis.mutationRoot

/-! ### Names that are used -/

/-- The name that an expression refers to. -/
def TypeExpr.name? : TypeExpr → Option String
  | reference name _ _ => some name
  | _ => none

/-- The names that an interface extends. -/
def Declaration.bases : Declaration → List String
  | interface d => d.bases
  | _ => []

/-- The names that are used in a scope. -/
def Scope.mentions (scope : Scope) : List String :=
  (scope.nodes.filterMap fun n => n.expr.name?) ++ scope.flatMap Declaration.bases

theorem mem_mentions_of_isMentioned {scope : Scope} {name : String} (h : IsMentioned scope name) :
    name ∈ scope.mentions := by
  rcases h with ⟨s, arguments, position, hat⟩ | ⟨d, hd, hbase⟩
  · exact List.mem_append_left _ (List.mem_filterMap.mpr ⟨_, mem_nodes_of_isAt hat, rfl⟩)
  · exact List.mem_append_right _ (List.mem_flatMap.mpr ⟨_, hd, hbase⟩)

/-- A default annotation is a reference, too. -/
theorem isMentioned_of_usesDefault {scope : Scope} (h : UsesDefault scope) :
    IsMentioned scope Extraction.defaultName := by
  obtain ⟨s, ps, position, p, hat, hp, arguments, position', hresult⟩ := h
  obtain ⟨i, hi⟩ := List.mem_iff_getElem?.mp hp
  have htype : IsAt scope ⟨s.child i, p.type⟩ := by
    rw [IsAt, exprAt?_child hat]
    simp [TypeExpr.child?, hi]
  unfold Property.result at hresult
  split at hresult
  · next parameters result hfunction =>
    rw [hfunction] at htype
    refine .inl ⟨(s.child i).child 0, arguments, position', ?_⟩
    rw [IsAt, exprAt?_child htype]
    exact congrArg some hresult
  · exact .inl ⟨s.child i, arguments, position', hresult ▸ htype⟩

namespace Extraction

variable {ctx ctx' : ExtractionContext} {r : Registry} {u u' : SourceUnit}
  {extra ds : List Declaration} {seen : List String}

/-! ### Names that are declared twice -/

/-- No declaration is found to be the second of its name if there is none. -/
theorem duplicate?_eq_none_iff : duplicate? seen ds = none ↔
    (ds.map Declaration.name).Nodup ∧ ∀ d ∈ ds, d.name ∉ seen := by
  induction ds generalizing seen with
  | nil => exact ⟨fun _ => ⟨List.nodup_nil, fun d hd => absurd hd List.not_mem_nil⟩, fun _ => rfl⟩
  | cons d rest ih =>
    rw [duplicate?, List.map_cons, List.nodup_cons, List.forall_mem_cons]
    by_cases hseen : d.name ∈ seen
    · rw [if_pos (by simpa using hseen)]
      exact ⟨fun h => (by cases h), fun h => absurd hseen h.2.1⟩
    · rw [if_neg (by simpa using hseen), ih]
      constructor
      · rintro ⟨hnodup, hnew⟩
        refine ⟨⟨fun hmem => ?_, hnodup⟩, hseen, fun e he hmem => ?_⟩
        · obtain ⟨e, he, hname⟩ := List.mem_map.mp hmem
          exact hnew e he (hname ▸ List.mem_cons_self ..)
        · exact hnew e he (List.mem_cons_of_mem _ hmem)
      · rintro ⟨⟨hfirst, hnodup⟩, -, hnew⟩
        refine ⟨hnodup, fun e he hmem => ?_⟩
        rcases List.mem_cons.mp hmem with hname | hmem
        · exact hfirst (hname ▸ List.mem_map_of_mem he)
        · exact hnew e he hmem

theorem duplicate?_of_yields_run {unionsAsEnums : Bool} {v : PUnit}
    (h : Yields (run unionsAsEnums u) Registry.empty v r) : duplicate? [] u.declarations = none := by
  unfold run at h
  split at h
  · exact absurd h yields_failAt
  · assumption

/-! ### The file means the same -/

/-- **Unused declarations** and another order change nothing. -/
theorem widensTo_of_addsUnused (h : AddsUnused extra u u') (hu : IsUnambiguous u.declarations)
    (hu' : IsUnambiguous u'.declarations) (unionsAsEnums : Bool) :
    WidensTo ⟨u.declarations, unionsAsEnums⟩ ⟨u'.declarations, unionsAsEnums⟩ where
  scope := by
    constructor
    · intro name d hd
      have hmem : d ∈ u'.declarations :=
        h.perm.mem_iff.mpr (List.mem_append_left _ (Scope.mem_of_find? hd))
      rw [← Scope.name_of_find? hd]
      exact hu' d hmem
    · intro name hmentioned hnone
      rw [← Option.not_isSome_iff_eq_none, Option.isSome_iff_exists]
      rintro ⟨d, hd⟩
      obtain rfl := Scope.name_of_find? hd
      rcases List.mem_append.mp (h.perm.mem_iff.mp (Scope.mem_of_find? hd)) with hold | hextra
      · cases (hu d hold).symm.trans hnone
      · exact h.unmentioned d hextra hmentioned
  unionsAsEnums := rfl
  unambiguous := hu

theorem addsUnused_of_perm (h : u'.declarations.Perm u.declarations) : AddsUnused [] u u' where
  perm := by rwa [List.append_nil]
  undeclared _ hd := absurd hd List.not_mem_nil
  unmentioned _ hd := absurd hd List.not_mem_nil
  unrooted _ hd := absurd hd List.not_mem_nil

/-! ### Extraction succeeds in any order -/

/-- What is accepted is accepted in another order. -/
theorem WidensTo.isAccepted (h : WidensTo ctx ctx') (hback : WidensTo ctx' ctx)
    (haccepted : IsAccepted ctx) : IsAccepted ctx' where
  placed hn hname hfind := by
    refine haccepted.placed (hback.resolved hn) hname ?_
    exact hback.scope.missing (isMentioned_of_isAt (hn.isAt hback.unambiguous)) hfind
  unmixed {d} hd hshape := by
    have hd := hback.mem hd
    have hnode := isAt_node h.unambiguous hd
    rw [h.scope.namesShape_eq hnode] at hshape
    have hunmixed := haccepted.unmixed hd hshape
    rwa [isMixed, h.unionsAsEnums, h.scope.alternatives_eq hnode]

theorem duplicate?_of_perm (hperm : u'.declarations.Perm u.declarations)
    (hnone : duplicate? [] u.declarations = none) : duplicate? [] u'.declarations = none :=
  duplicate?_eq_none_iff.mpr ⟨(hperm.map Declaration.name).nodup_iff.mpr
    (duplicate?_eq_none_iff.mp hnone).1, fun _ _ => List.not_mem_nil⟩

theorem usesDefault_of_perm (hperm : u'.declarations.Perm u.declarations)
    (hnone : duplicate? [] u.declarations = none) (h : UsesDefault u.declarations) :
    UsesDefault u'.declarations := by
  obtain ⟨hscope, -⟩ := isUnambiguous_of_duplicate?_eq_none hnone
  obtain ⟨hscope', -⟩ := isUnambiguous_of_duplicate?_eq_none (duplicate?_of_perm hperm hnone)
  obtain ⟨s, ps, position, p, hat, huses⟩ := h
  have hwidens := widensTo_of_addsUnused (addsUnused_of_perm hperm) hscope hscope' false
  exact ⟨s, ps, position, p, hwidens.scope.isAt hat, huses⟩

/-- **Extraction succeeds in any order**, unless there are defaults. -/
theorem exists_extract_of_perm {unionsAsEnums : Bool} {g : Graph}
    (hperm : u'.declarations.Perm u.declarations) (hdefault : ¬UsesDefault u.declarations)
    (h : extract unionsAsEnums u = .ok g) : ∃ g', extract unionsAsEnums u' = .ok g' := by
  obtain ⟨r, hrun, -⟩ := yields_of_extract h
  obtain ⟨hscope, hcomplete, -⟩ := isComplete_of_run hrun
  have hnone := duplicate?_of_perm hperm (duplicate?_of_yields_run hrun)
  obtain ⟨hscope', -⟩ := isUnambiguous_of_duplicate?_eq_none hnone
  have hwidens := widensTo_of_addsUnused (addsUnused_of_perm hperm) hscope hscope' unionsAsEnums
  have hback := widensTo_of_addsUnused (addsUnused_of_perm hperm.symm) hscope' hscope unionsAsEnums
  have hcomplete' := hwidens.isComplete (fun d hd => hperm.mem_iff.mp hd) hcomplete
  have haccepted := hwidens.isAccepted hback (isAccepted_of_run hrun)
  have hdefault' : ¬UsesDefault u'.declarations := mt (usesDefault_of_perm hperm.symm hnone) hdefault
  cases hextract : extract unionsAsEnums u' with
  | ok g' => exact ⟨g', rfl⟩
  | error e =>
    cases blamed_of_run hnone (fails_of_extract hextract) with
    | declaration hcause =>
      exact absurd hcause (haccepted.not_cause hscope' hcomplete' hdefault')
    | endless hdeep =>
      have hends := hcomplete'.not_hasEndlessArray hscope'
      exact absurd hdeep (not_deep hscope' hends (Nat.le_refl _))

/-- In which order the declarations come makes no difference to whether extraction succeeds, unless
there are defaults. -/
theorem extract_iff_of_perm {unionsAsEnums : Bool} (hperm : u'.declarations.Perm u.declarations)
    (hdefault : ¬UsesDefault u.declarations) :
    (∃ g, extract unionsAsEnums u = .ok g) ↔ ∃ g, extract unionsAsEnums u' = .ok g := by
  constructor
  · rintro ⟨g, h⟩
    exact exists_extract_of_perm hperm hdefault h
  · rintro ⟨g, h⟩
    obtain ⟨r, hrun, -⟩ := yields_of_extract h
    have hdefault' : ¬UsesDefault u'.declarations :=
      mt (usesDefault_of_perm hperm.symm (duplicate?_of_yields_run hrun)) hdefault
    exact exists_extract_of_perm hperm.symm hdefault' h

end Extraction

end DeclaredSchema
