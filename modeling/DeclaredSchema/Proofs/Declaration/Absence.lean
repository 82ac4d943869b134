import DeclaredSchema.Proofs.Extraction.Place
import Mathlib.Data.Nat.Find
import Mathlib.Logic.Relation

/-!
# Null and undefined among the alternatives of a type

The alternatives of a type are reached from it through the members of unions, the arguments of
promises and the bodies of aliases. Stripping a type does not look at all of them. While a type
stands alone, wrappings are taken off one by one, promises and transparent aliases among them. Once
there are several alternatives, only nested unions and aliases of unions are looked into.

## Main definitions

* `Down`, `AdmitsAbsent`, `AdmitsOther` — the alternatives of a type
* `Within` — null or undefined is reached through unions and aliases of unions
* `Alone` — null or undefined is found when wrappings are taken off
* `HasPlainUnions` — no union hides alternatives behind other wrappings

## Main results

* `hasNullishLeaf_iff` — a union shows the absent values within it, whatever cycles there are
* `nullable_iff_alone` — what stripping finds
* `not_admitsOther_of_strip` — stripping fails only where there is no alternative
* `nullable_iff_admitsAbsent` — where all unions are plain, stripping finds every absent value
-/

namespace DeclaredSchema

/-- One step from a type towards its alternatives. -/
inductive Down (scope : Scope) : TypeExpr → TypeExpr → Prop
  | member {es : List TypeExpr} {e : TypeExpr} (h : e ∈ es) : Down scope (.union es) e
  | promise {e : TypeExpr} {position : Position} :
      Down scope (.reference promiseName [e] position) e
  | through {name : String} {arguments : List TypeExpr} {position : Position} {d : Alias}
      (hpromise : ∀ e, arguments = [e] → name ≠ promiseName)
      (hd : scope.alias? name = some d) : Down scope (.reference name arguments position) d.type

/-- Null or undefined is an alternative of the type. -/
def AdmitsAbsent (scope : Scope) (e : TypeExpr) : Prop :=
  ∃ l, Relation.ReflTransGen (Down scope) e l ∧ l.isNullish = true

/-- Something besides null and undefined is an alternative of the type. -/
def AdmitsOther (scope : Scope) (e : TypeExpr) : Prop :=
  ∃ l, Relation.ReflTransGen (Down scope) e l ∧ l.isNullish = false ∧ l.isUnion = false ∧
    ∀ l', ¬Down scope l l'

/-- Null or undefined is reached within a union, in the given number of steps through unions and
aliases of unions. -/
inductive WithinIn (scope : Scope) : Nat → TypeExpr → Prop
  | absent {word : TypeKeyword} (h : word.isNullish = true) : WithinIn scope 0 (.keyword word)
  | member {k : Nat} {es : List TypeExpr} {e : TypeExpr} (he : e ∈ es) (h : WithinIn scope k e) :
      WithinIn scope (k + 1) (.union es)
  | through {k : Nat} {name : String} {position : Position} {d : Alias}
      (hd : scope.alias? name = some d) (hunion : d.type.isUnion = true)
      (h : WithinIn scope k d.type) : WithinIn scope (k + 1) (.reference name [] position)

/-- Null or undefined is reached through unions and aliases of unions. -/
def Within (scope : Scope) (e : TypeExpr) : Prop := ∃ k, WithinIn scope k e

variable {scope : Scope} {n m l : Node} {s : Site} {e e' : TypeExpr} {seen : List String}
  {owner : String} {k : Nat}

theorem Down.alias {name : String} {position : Position} {d : Alias}
    (hd : scope.alias? name = some d) : Down scope (.reference name [] position) d.type :=
  .through nofun hd

theorem not_down_keyword {word : TypeKeyword} : ¬Down scope (.keyword word) e := nofun

/-! ### Leaves -/

theorem mem_site_nodes {es : List TypeExpr} (h : e ∈ es) (s : Site) :
    ∃ i, ⟨s.child i, e⟩ ∈ s.nodes es := by
  obtain ⟨i, hi⟩ := List.mem_iff_getElem?.mp h
  refine ⟨i, List.mem_map.mpr ⟨(e, i), List.mem_zipIdx_iff_getElem?.mpr hi, rfl⟩⟩

/-- The leaves of a member of a union are leaves of the union. -/
theorem mem_flatten_union {es : List TypeExpr} :
    l ∈ flatten scope seen s (.union es) ↔ ∃ m ∈ s.nodes es, l ∈ flatten scope seen m.site m.expr := by
  rw [flatten_union, List.mem_flatMap]

/-- A leaf of a type that is expanded is reached through unions and aliases of unions. -/
inductive LeadsTo (scope : Scope) : TypeExpr → TypeExpr → Prop
  | refl {e : TypeExpr} : LeadsTo scope e e
  | member {es : List TypeExpr} {e l : TypeExpr} (he : e ∈ es) (h : LeadsTo scope e l) :
      LeadsTo scope (.union es) l
  | through {name : String} {position : Position} {d : Alias} {l : TypeExpr}
      (hd : scope.alias? name = some d) (hunion : d.type.isUnion = true)
      (h : LeadsTo scope d.type l) : LeadsTo scope (.reference name [] position) l

theorem leadsTo_of_mem_flatten (seen : List String) (s : Site) (e : TypeExpr) :
    ∀ l ∈ flatten scope seen s e, LeadsTo scope e l.expr := by
  induction seen, s, e using flatten_induction scope with
  | union ih =>
    intro l hl
    obtain ⟨m, hm, hl⟩ := mem_flatten_union.mp hl
    exact .member (Site.expr_mem_of_mem_nodes hm) (ih m hm l hl)
  | through hd hunion hseen ih =>
    intro l hl
    rw [flatten_alias hd hunion hseen] at hl
    exact .through hd hunion (ih l hl)
  | leaf hleaf =>
    intro l hl
    rw [flatten_unexpanded hleaf] at hl
    rw [List.mem_singleton.mp hl]
    exact .refl

theorem LeadsTo.within (h : LeadsTo scope e e') (hnullish : e'.isNullish = true) :
    Within scope e := by
  induction h with
  | @refl e =>
    cases e with
    | keyword word => exact ⟨0, .absent hnullish⟩
    | literal | reference | array | union | object | function => cases hnullish
  | member he _ ih =>
    obtain ⟨k, hk⟩ := ih hnullish
    exact ⟨k + 1, .member he hk⟩
  | through hd hunion _ ih =>
    obtain ⟨k, hk⟩ := ih hnullish
    exact ⟨k + 1, .through hd hunion hk⟩

/-- The names that are expanded already are no shorter ways to an absent value. -/
def NoShortcut (scope : Scope) (seen : List String) (k : Nat) : Prop :=
  ∀ name ∈ seen, ∀ d j, scope.alias? name = some d → WithinIn scope j d.type → k ≤ j

/-- The shortest way to an absent value expands no alias twice, so it ends at a leaf. -/
theorem WithinIn.exists_leaf (h : WithinIn scope k e) (hmin : ∀ j, WithinIn scope j e → k ≤ j)
    (hseen : NoShortcut scope seen k) : ∃ l ∈ flatten scope seen s e, l.isNullish = true := by
  induction h generalizing seen s with
  | @absent word h =>
    have hleaf : IsUnexpanded scope seen (.keyword word) := ⟨rfl, nofun⟩
    refine ⟨⟨s, .keyword word⟩, ?_, h⟩
    rw [flatten_unexpanded hleaf]
    exact List.mem_singleton_self _
  | member he h ih =>
    obtain ⟨i, hi⟩ := mem_site_nodes he s
    obtain ⟨l, hl, hnullish⟩ := ih (s := s.child i)
      (fun j hj => Nat.le_of_succ_le_succ (hmin (j + 1) (.member he hj)))
      fun name hname d j hd hj => Nat.le_of_succ_le (hseen name hname d j hd hj)
    exact ⟨l, mem_flatten_union.mpr ⟨_, hi, hl⟩, hnullish⟩
  | @through k name position d hd hunion h ih =>
    have hnew : name ∉ seen := fun hname =>
      absurd (hseen name hname d k hd h) (Nat.not_succ_le_self k)
    have hbody : ∀ j, WithinIn scope j d.type → k ≤ j := fun j hj =>
      Nat.le_of_succ_le_succ (hmin (j + 1) (.through hd hunion hj))
    rw [flatten_alias hd hunion hnew]
    refine ih hbody fun name' hname d' j hd' hj => ?_
    rcases List.mem_cons.mp hname with rfl | hname
    · obtain rfl := Option.some.inj (hd.symm.trans hd')
      exact hbody j hj
    · exact Nat.le_of_succ_le (hseen name' hname d' j hd' hj)

/-- **A union shows what is within it.** Cutting cycles short loses no absent value. -/
theorem hasNullishLeaf_iff : hasNullishLeaf scope n = true ↔ Within scope n.expr := by
  rw [hasNullishLeaf, List.any_eq_true]
  constructor
  · rintro ⟨l, hl, hnullish⟩
    exact (leadsTo_of_mem_flatten [] n.site n.expr l hl).within hnullish
  · intro h
    classical
    exact (Nat.find_spec h).exists_leaf (fun j hj => Nat.find_min' h hj) nofun

/-! ### Types that are absent as a whole -/

theorem down_union {es : List TypeExpr} : Down scope (.union es) e ↔ e ∈ es :=
  ⟨fun h => by cases h; assumption, .member⟩

theorem down_promise {position : Position} :
    Down scope (.reference promiseName [e'] position) e ↔ e = e' := by
  constructor
  · intro h
    cases h with
    | promise => rfl
    | through hpromise => exact absurd rfl (hpromise _ rfl)
  · rintro rfl
    exact .promise

theorem down_reference {name : String} {arguments : List TypeExpr} {position : Position}
    (hpromise : ∀ e, arguments = [e] → name ≠ promiseName) :
    Down scope (.reference name arguments position) e ↔
      ∃ d, scope.alias? name = some d ∧ e = d.type := by
  constructor
  · intro h
    cases h with
    | promise => exact absurd rfl (hpromise _ rfl)
    | through _ hd => exact ⟨_, hd, rfl⟩
  · rintro ⟨d, hd, rfl⟩
    exact .through hpromise hd

/-- A type from which steps lead on admits what its successors admit. -/
theorem admitsOther_iff (h : e.isUnion = true ∨ ∃ e', Down scope e e') :
    AdmitsOther scope e ↔ ∃ e', Down scope e e' ∧ AdmitsOther scope e' := by
  constructor
  · rintro ⟨l, hpath, hother⟩
    rcases hpath.cases_head with rfl | ⟨e', hdown, hpath⟩
    · rcases h with hunion | ⟨e', hdown⟩
      · exact absurd hunion (by simp [hother.2.1])
      · exact absurd hdown (hother.2.2 e')
    · exact ⟨e', hdown, l, hpath, hother⟩
  · rintro ⟨e', hdown, l, hpath, hother⟩
    exact ⟨l, .head hdown hpath, hother⟩

theorem admitsOther_union {es : List TypeExpr} :
    AdmitsOther scope (.union es) ↔ ∃ e ∈ es, AdmitsOther scope e := by
  rw [admitsOther_iff (.inl rfl)]
  simp only [down_union]

theorem admitsOther_promise {position : Position} :
    AdmitsOther scope (.reference promiseName [e] position) ↔ AdmitsOther scope e := by
  rw [admitsOther_iff (.inr ⟨e, .promise⟩)]
  simp only [down_promise, exists_eq_left]

theorem admitsOther_reference {name : String} {arguments : List TypeExpr} {position : Position}
    {d : Alias} (hpromise : ∀ e, arguments = [e] → name ≠ promiseName)
    (hd : scope.alias? name = some d) :
    AdmitsOther scope (.reference name arguments position) ↔ AdmitsOther scope d.type := by
  rw [admitsOther_iff (.inr ⟨d.type, .through hpromise hd⟩)]
  simp only [down_reference hpromise, hd, Option.some.injEq, exists_eq_left', exists_eq_left]

theorem admitsAbsent_iff (h : e.isNullish = false) :
    AdmitsAbsent scope e ↔ ∃ e', Down scope e e' ∧ AdmitsAbsent scope e' := by
  constructor
  · rintro ⟨l, hpath, hl⟩
    rcases hpath.cases_head with rfl | ⟨e', hdown, hpath⟩
    · rw [h] at hl
      cases hl
    · exact ⟨e', hdown, l, hpath, hl⟩
  · rintro ⟨e', hdown, l, hpath, hl⟩
    exact ⟨l, .head hdown hpath, hl⟩

theorem not_admitsOther_of_isNullish (h : e.isNullish = true) : ¬AdmitsOther scope e := by
  rintro ⟨l, hpath, hother, -⟩
  rcases hpath.cases_head with rfl | ⟨e', hdown, -⟩
  · rw [h] at hother
    cases hother
  · cases hdown <;> cases h

/-- A type whose leaves are all null or undefined has no other alternative. -/
theorem not_admitsOther_of_flatten (seen : List String) (s : Site) (e : TypeExpr) :
    (∀ l ∈ flatten scope seen s e, l.isNullish = true) → ¬AdmitsOther scope e := by
  induction seen, s, e using flatten_induction scope with
  | @union seen s es ih =>
    intro h
    rw [admitsOther_union]
    rintro ⟨e, he, hother⟩
    obtain ⟨i, hi⟩ := mem_site_nodes he s
    exact ih _ hi (fun l hl => h l (mem_flatten_union.mpr ⟨_, hi, hl⟩)) hother
  | through hd hunion hseen ih =>
    intro h
    rw [flatten_alias hd hunion hseen] at h
    rw [admitsOther_reference (fun _ hnil => by cases hnil) hd]
    exact ih h
  | leaf hleaf =>
    intro h
    rw [flatten_unexpanded hleaf] at h
    exact not_admitsOther_of_isNullish (h _ (List.mem_singleton_self _))

theorem not_admitsOther_of_isWhollyNullish (h : isWhollyNullish scope n = true) :
    ¬AdmitsOther scope n.expr :=
  not_admitsOther_of_flatten [] n.site n.expr (List.all_eq_true.mp h)

/-! ### What stripping finds -/

/-- Null or undefined is found when the wrappings of a type are taken off: within a union, or within
what is left of the type when a promise, a transparent alias or an only alternative is looked into.
-/
inductive Alone (scope : Scope) : Node → Prop
  | union {s : Site} {es : List TypeExpr} (h : Within scope (.union es)) : Alone scope ⟨s, .union es⟩
  | only {s : Site} {es : List TypeExpr} {m : Node}
      (honly : writtenAlternatives scope ⟨s, .union es⟩ = [m]) (h : Alone scope m) :
      Alone scope ⟨s, .union es⟩
  | promise {s : Site} {e : TypeExpr} {position : Position} (h : Alone scope ⟨s.child 0, e⟩) :
      Alone scope ⟨s, .reference promiseName [e] position⟩
  | renamed {s : Site} {name : String} {arguments : List TypeExpr} {position : Position} {d : Alias}
      (hpromise : ∀ e, arguments = [e] → name ≠ promiseName) (hd : scope.alias? name = some d)
      (hshape : namesShape scope d = false) (h : Alone scope d.node) :
      Alone scope ⟨s, .reference name arguments position⟩
  | shape {s : Site} {name : String} {arguments : List TypeExpr} {position : Position} {d : Alias}
      (hpromise : ∀ e, arguments = [e] → name ≠ promiseName) (hd : scope.alias? name = some d)
      (hshape : namesShape scope d = true) (hunion : d.type.isUnion = true)
      (h : Within scope d.type) : Alone scope ⟨s, .reference name arguments position⟩

theorem alone_union {es : List TypeExpr} : Alone scope ⟨s, .union es⟩ ↔
    Within scope (.union es) ∨ ∃ m, writtenAlternatives scope ⟨s, .union es⟩ = [m] ∧
      Alone scope m := by
  constructor
  · intro h
    cases h with
    | union h => exact .inl h
    | only honly h => exact .inr ⟨_, honly, h⟩
  · rintro (h | ⟨m, honly, h⟩)
    · exact .union h
    · exact .only honly h

theorem alone_promise {position : Position} :
    Alone scope ⟨s, .reference promiseName [e] position⟩ ↔ Alone scope ⟨s.child 0, e⟩ := by
  constructor
  · intro h
    cases h with
    | promise h => exact h
    | renamed hpromise | shape hpromise => exact absurd rfl (hpromise _ rfl)
  · exact .promise

theorem alone_reference {name : String} {arguments : List TypeExpr} {position : Position}
    (hpromise : ∀ e, arguments = [e] → name ≠ promiseName) :
    Alone scope ⟨s, .reference name arguments position⟩ ↔ ∃ d, scope.alias? name = some d ∧
      (namesShape scope d = false ∧ Alone scope d.node ∨
        namesShape scope d = true ∧ d.type.isUnion = true ∧ Within scope d.type) := by
  constructor
  · intro h
    cases h with
    | promise => exact absurd rfl (hpromise _ rfl)
    | renamed _ hd hshape h => exact ⟨_, hd, .inl ⟨hshape, h⟩⟩
    | shape _ hd hshape hunion h => exact ⟨_, hd, .inr ⟨hshape, hunion, h⟩⟩
  · rintro ⟨d, hd, ⟨hshape, h⟩ | ⟨hshape, hunion, h⟩⟩
    · exact .renamed hpromise hd hshape h
    · exact .shape hpromise hd hshape hunion h

/-- What is said of an outcome of stripping: absent values are found where they are, and a failure
for want of alternatives is justified. -/
structure FindsAbsence (scope : Scope) (nullable : Bool) (n : Node)
    (outcome : Except DeclarationError Stripped) : Prop where
  nullable : ∀ {t}, outcome = .ok t → (t.nullable = true ↔ nullable = true ∨ Alone scope n)
  failure : ∀ {e owner}, outcome = .error e → e.fault = .noAlternative owner →
    ¬AdmitsOther scope n.expr

theorem FindsAbsence.done {nullable nullable' : Bool} {raw : Option String}
    (h : nullable' = true ↔ nullable = true ∨ Alone scope n) :
    FindsAbsence scope nullable n (.ok ⟨n, nullable', raw⟩) :=
  ⟨fun ht => by cases ht; exact h, nofun⟩

theorem FindsAbsence.failed {nullable : Bool} {error : DeclarationError}
    (h : ∀ owner, error.fault = .noAlternative owner → ¬AdmitsOther scope n.expr) :
    FindsAbsence scope nullable n (.error error) :=
  ⟨nofun, fun he hfault => by cases he; exact h _ hfault⟩

/-- A wrapping is taken off, with which no alternative is lost. -/
theorem FindsAbsence.through {nullable nullable' : Bool} {outcome : Except DeclarationError Stripped}
    (h : FindsAbsence scope nullable' m outcome)
    (halone : nullable = true ∨ Alone scope n ↔ nullable' = true ∨ Alone scope m)
    (hother : AdmitsOther scope n.expr → AdmitsOther scope m.expr) :
    FindsAbsence scope nullable n outcome :=
  ⟨fun ht => (h.nullable ht).trans halone.symm, fun he hfault => mt hother (h.failure he hfault)⟩

/-- The members of a union that are not written alternatives have no other alternative. -/
theorem exists_admitsOther_of_union {es : List TypeExpr} (h : AdmitsOther scope (.union es)) :
    ∃ m ∈ writtenAlternatives scope ⟨s, .union es⟩, AdmitsOther scope m.expr := by
  obtain ⟨e, he, hother⟩ := admitsOther_union.mp h
  obtain ⟨i, hi⟩ := mem_site_nodes he s
  refine ⟨_, List.mem_filter.mpr ⟨hi, ?_⟩, hother⟩
  rw [Bool.not_eq_true', ← Bool.not_eq_true]
  exact fun hwhole => not_admitsOther_of_isWhollyNullish hwhole hother

theorem findsAbsence (scope : Scope) (owner : String) (seen : List String) (nullable : Bool)
    (raw : Option String) (n : Node) :
    FindsAbsence scope nullable n (strip scope owner seen nullable raw n) := by
  induction seen, nullable, raw, n using strip_induction scope with
  | @empty _ _ _ s es hempty =>
    rw [strip_empty hempty]
    refine .failed fun _ _ hother => ?_
    obtain ⟨m, hm, -⟩ := exists_admitsOther_of_union (s := s) hother
    rw [hempty] at hm
    cases hm
  | @only _ _ _ s es m honly ih =>
    rw [strip_only honly]
    refine ih.through ?_ fun hother => ?_
    · rw [alone_union, honly, Bool.or_eq_true, hasNullishLeaf_iff, or_assoc]
      simp
    · obtain ⟨m', hm', hother⟩ := exists_admitsOther_of_union (s := s) hother
      rw [honly, List.mem_singleton] at hm'
      exact hm' ▸ hother
  | @several _ _ _ s es hseveral =>
    rw [strip_several hseveral]
    refine .done ?_
    have hnone : ¬∃ m, writtenAlternatives scope ⟨s, .union es⟩ = [m] ∧ Alone scope m := by
      rintro ⟨m, honly, -⟩
      rw [honly] at hseveral
      exact absurd hseveral (Nat.not_succ_le_self 1)
    rw [alone_union, or_iff_left hnone, Bool.or_eq_true, hasNullishLeaf_iff]
  | keyword =>
    rw [strip_keyword]
    split
    · next hnullish => exact .failed fun _ _ => not_admitsOther_of_isNullish hnullish
    · exact .done (or_iff_left fun halone => by cases halone).symm
  | promise ih =>
    rw [strip_promise]
    exact ih.through (or_congr_right alone_promise) admitsOther_promise.mp
  | undeclared hpromise hd =>
    rw [strip_undeclared hpromise hd]
    refine .done ?_
    rw [alone_reference hpromise]
    simp [hd]
  | shape hpromise hd hshape =>
    rw [strip_shape hpromise hd hshape]
    refine .done ?_
    rw [alone_reference hpromise]
    simp [hd, hshape, hasNullishLeaf_iff, Alias.node]
  | again hpromise hd hshape hseen =>
    rw [strip_again hpromise hd hshape hseen]
    exact .failed fun _ hfault => by cases hfault
  | followed hpromise hd hshape hseen ih =>
    rw [strip_followed hpromise hd hshape hseen]
    refine ih.through ?_ (admitsOther_reference hpromise hd).mp
    rw [alone_reference hpromise]
    simp [hd, hshape]
  | literal | array | object | function =>
    rw [strip]
    exact .done (or_iff_left fun halone => by cases halone).symm

/-- **What stripping finds.** -/
theorem nullable_iff_alone {t : Stripped} (h : Strips scope n t) :
    t.nullable = true ↔ Alone scope n := by
  simpa using (findsAbsence scope "" [] false none n).nullable h

/-- **Stripping fails only where there is no alternative.** -/
theorem not_admitsOther_of_strip {nullable : Bool} {raw : Option String} {error : DeclarationError}
    (h : strip scope owner seen nullable raw n = .error error) {owner' : String}
    (hfault : error.fault = .noAlternative owner') : ¬AdmitsOther scope n.expr :=
  (findsAbsence scope owner seen nullable raw n).failure h hfault

/-! ### Absent values that are hidden -/

theorem WithinIn.admitsAbsent (h : WithinIn scope k e) : AdmitsAbsent scope e := by
  induction h with
  | absent h => exact ⟨_, .refl, h⟩
  | member he _ ih =>
    obtain ⟨l, hpath, hl⟩ := ih
    exact ⟨l, .head (.member he) hpath, hl⟩
  | through hd _ _ ih =>
    obtain ⟨l, hpath, hl⟩ := ih
    exact ⟨l, .head (.through (fun _ hnil => by cases hnil) hd) hpath, hl⟩

/-- Only alternatives are found. -/
theorem Alone.admitsAbsent (h : Alone scope n) : AdmitsAbsent scope n.expr := by
  induction h with
  | union h => exact h.choose_spec.admitsAbsent
  | @only s es m honly _ ih =>
    obtain ⟨l, hpath, hl⟩ := ih
    have hm : m ∈ writtenAlternatives scope ⟨s, .union es⟩ := honly ▸ List.mem_singleton_self m
    exact ⟨l, .head (.member (Site.expr_mem_of_mem_nodes (List.mem_filter.mp hm).1)) hpath, hl⟩
  | promise _ ih =>
    obtain ⟨l, hpath, hl⟩ := ih
    exact ⟨l, .head .promise hpath, hl⟩
  | renamed hpromise hd _ _ ih =>
    obtain ⟨l, hpath, hl⟩ := ih
    exact ⟨l, .head (.through hpromise hd) hpath, hl⟩
  | shape hpromise hd _ _ h =>
    obtain ⟨l, hpath, hl⟩ := h.choose_spec.admitsAbsent
    exact ⟨l, .head (.through hpromise hd) hpath, hl⟩

/-- A member of a union hides nothing: it is no promise, and a reference without arguments to an
alias of a union if it refers to an alias. -/
def IsPlain (scope : Scope) : TypeExpr → Prop
  | .reference name arguments _ => (∀ e, arguments = [e] → name ≠ promiseName) ∧
      ∀ d, scope.alias? name = some d → arguments = [] ∧ d.type.isUnion = true
  | _ => True

/-- No union of the file hides alternatives. -/
def HasPlainUnions (scope : Scope) : Prop :=
  ∀ s es, IsAt scope ⟨s, .union es⟩ → ∀ e ∈ es, IsPlain scope e

/-- What plain unions admit is within them. -/
theorem within_of_admitsAbsent (hplain : HasPlainUnions scope) (hat : IsAt scope ⟨s, e⟩)
    (he : IsPlain scope e) (h : AdmitsAbsent scope e) : Within scope e := by
  obtain ⟨l, hpath, hl⟩ := h
  induction hpath using Relation.ReflTransGen.head_induction_on generalizing s with
  | refl =>
    cases l with
    | keyword word => exact ⟨0, .absent hl⟩
    | literal | reference | array | union | object | function => cases hl
  | head hdown _ ih =>
    cases hdown with
    | member hmem =>
      obtain ⟨i, hi⟩ := mem_site_nodes hmem s
      obtain ⟨k, hk⟩ := ih (isAt_of_mem_nodes hat hi) (hplain s _ hat _ hmem)
      exact ⟨k + 1, .member hmem hk⟩
    | promise => exact absurd rfl (he.1 _ rfl)
    | @through name arguments position d hpromise hd =>
      obtain ⟨rfl, hunion⟩ := he.2 d hd
      have hbody : IsPlain scope d.type := by
        cases htype : d.type with
        | reference => rw [htype] at hunion; cases hunion
        | keyword | literal | array | union | object | function => trivial
      obtain ⟨k, hk⟩ := ih (isAt_alias hd) hbody
      exact ⟨k + 1, .through hd hunion hk⟩

theorem isPlain_of_isUnion (h : e.isUnion = true) : IsPlain scope e := by
  cases e with
  | reference => cases h
  | keyword | literal | array | union | object | function => trivial

/-- The body of an alias that names a shape is a union or an object type. -/
theorem isUnion_of_namesShape {d : Alias} (hshape : namesShape scope d = true)
    (hobject : d.type.isObject = false) : d.type.isUnion = true := by
  by_contra hunion
  rw [namesShape, alternatives, Alias.node, if_neg hunion] at hshape
  simp [hobject] at hshape

theorem alone_of_admitsAbsent (hplain : HasPlainUnions scope) (hat : IsAt scope ⟨s, e⟩)
    (hstrip : ∃ owner seen nullable raw t, strip scope owner seen nullable raw ⟨s, e⟩ = .ok t)
    (h : AdmitsAbsent scope e) : Alone scope ⟨s, e⟩ := by
  obtain ⟨l, hpath, hl⟩ := h
  induction hpath using Relation.ReflTransGen.head_induction_on generalizing s with
  | refl =>
    obtain ⟨owner, seen, nullable, raw, t, hstrip⟩ := hstrip
    cases l with
    | keyword word =>
      have hword : word.isNullish = true := hl
      rw [strip_keyword, if_pos hword] at hstrip
      cases hstrip
    | literal | reference | array | union | object | function => cases hl
  | @head e c hdown hpath ih =>
    cases hdown with
    | member hmem =>
      exact .union (within_of_admitsAbsent hplain hat trivial ⟨l, .head (.member hmem) hpath, hl⟩)
    | promise =>
      simp only [strip_promise] at hstrip
      exact .promise (ih (exprAt?_child hat) hstrip)
    | @through name arguments position d hpromise hd =>
      obtain ⟨owner, seen, nullable, raw, t, hstrip⟩ := hstrip
      rw [strip_reference hpromise, stripAlias_some hd] at hstrip
      have habsent : AdmitsAbsent scope d.type := ⟨l, hpath, hl⟩
      cases hshape : namesShape scope d with
      | true =>
        have hobject : d.type.isObject = false := by
          cases htype : d.type with
          | object =>
            rw [htype, admitsAbsent_iff rfl] at habsent
            obtain ⟨_, hdown, -⟩ := habsent
            cases hdown
          | keyword | literal | reference | array | union | function => rfl
        have hunion := isUnion_of_namesShape hshape hobject
        exact .shape hpromise hd hshape hunion
          (within_of_admitsAbsent hplain (isAt_alias hd) (isPlain_of_isUnion hunion) habsent)
      | false =>
        rw [hshape, if_neg Bool.false_ne_true] at hstrip
        split at hstrip
        · cases hstrip
        · exact .renamed hpromise hd hshape (ih (isAt_alias hd) ⟨_, _, _, _, t, hstrip⟩)

/-- **Plain unions hide nothing.** Where all are plain, stripping finds every absent value. -/
theorem nullable_iff_admitsAbsent (hplain : HasPlainUnions scope) (hat : IsAt scope n) {t : Stripped}
    (h : Strips scope n t) : t.nullable = true ↔ AdmitsAbsent scope n.expr :=
  (nullable_iff_alone h).trans
    ⟨Alone.admitsAbsent, alone_of_admitsAbsent hplain hat ⟨_, _, _, _, t, h⟩⟩

end DeclaredSchema
