import DeclaredSchema.Proofs.Extraction.Invariant
import DeclaredSchema.Proofs.Step

/-!
# What a resolution brings about

A resolution that succeeds keeps the invariant, changes no slot that was there before, and yields
what the type stands for. The functions of a step do so for any function `rec` that resolves types
in this way. Here these are the single steps, and the members of records.

## Main definitions

* `Keeps` — what every successful step brings about
* `Admits` — a type can be handed on to be resolved
* `IsResolver` — a way to resolve types

## Main results

* `alternative_keeps`, `argumentBag_keeps`, `member_keeps` — the types of a member
* `members_keeps`, `foldLineage_keeps` — the members of a record
-/

namespace DeclaredSchema

namespace Extraction

/-- The step from `r` to `r'` keeps the invariant and all slots of `r`. -/
structure Keeps (ctx : ExtractionContext) (asked : Node → Prop) (U : Nat → Prop)
    (r r' : Registry) : Prop where
  inv : Inv ctx asked U r'
  grows : Grows ctx asked r r'

/-- What is left of a type without its wrappings is among the types that are resolved. -/
def Admits (ctx : ExtractionContext) (asked : Node → Prop) (n : Node) : Prop :=
  ∀ t, Strips ctx.scope n t → asked t.node

/-- Every successful resolution yields what the type stands for. -/
def IsResolver (ctx : ExtractionContext) (asked : Node → Prop) (rec : Resolver) : Prop :=
  ∀ {n raw owner U r t r'}, Inv ctx asked U r → asked n → Yields (rec n raw owner) r t r' →
    Keeps ctx asked U r r' ∧ Denotes ctx.scope r'.keys n raw t

variable {ctx : ExtractionContext} {asked : Node → Prop} {U : Nat → Prop} {r r' : Registry}
  {n : Node} {s : Signature} {t : TypeRef} {owner : String} {u : PUnit}

namespace Keeps

theorem refl (h : Inv ctx asked U r) : Keeps ctx asked U r r := ⟨h, .refl r⟩

theorem trans {a b c : Registry} (h : Keeps ctx asked U a b) (h' : Keeps ctx asked U b c) :
    Keeps ctx asked U a c :=
  ⟨h'.inv, h.grows.trans h'.grows⟩

end Keeps

/-! ### Single steps -/

@[simp] theorem yields_fail {α : Type} {e : DeclarationError} {a : α} :
    ¬ Yields (fail e) r a r' :=
  yields_throw

@[simp] theorem yields_failAt {α : Type} {position : Position} {declaration : String}
    {fault : DeclarationFault} {a : α} : ¬ Yields (failAt position declaration fault) r a r' :=
  yields_throw

@[simp] theorem yields_failFor {α : Type} {declaration : String} {fault : DeclarationFault}
    {a : α} : ¬ Yields (failFor declaration fault) r a r' :=
  yields_throw

@[simp] theorem yields_slotOf {key : NodeKey} {found : Option Nat} :
    Yields (slotOf key) r found r' ↔ found = slotIn r.keys key ∧ r' = r := by
  rw [slotOf, yields_get_bind, yields_pure, Registry.slot?, slotIn, eq_comm, @eq_comm _ r]

@[simp] theorem yields_register {key : NodeKey} {shape : Shape} {slot : Nat} :
    Yields (register key shape) r slot r' ↔ slot = r.graph.length ∧ r' = r.add key shape := by
  rw [register, yields_get_bind]
  simp only [yields_bind, yields_set, yields_pure]
  constructor
  · rintro ⟨_, _, rfl, rfl, rfl⟩
    exact ⟨rfl, rfl⟩
  · rintro ⟨rfl, rfl⟩
    exact ⟨⟨⟩, _, rfl, rfl, rfl⟩

@[simp] theorem yields_change {slot : Nat} {f : Shape → Shape} :
    Yields (change slot f) r u r' ↔ r' = r.update slot f :=
  yields_modify

theorem strips_of_yields {t : Stripped} (h : Yields (stripped ctx owner n) r t r') :
    Strips ctx.scope n t ∧ r' = r := by
  unfold stripped at h
  split at h
  · next t' hstrip =>
    obtain ⟨rfl, rfl⟩ := yields_pure.mp h
    exact ⟨strips_of_strip hstrip, rfl⟩
  · exact absurd h yields_fail

theorem yields_of_strips {t : Stripped} (h : Strips ctx.scope n t) :
    Yields (stripped ctx owner n) r t r := by
  rw [stripped, (stripAlike ctx.scope "" owner [] false none n t h).1]
  exact yields_pure.mpr ⟨rfl, rfl⟩

theorem yields_splitDefault {x : Node × Option Literal} (h : Yields (splitDefault s n) r x r') :
    x = splitDefaultOf n ∧ r' = r := by
  obtain ⟨site, e⟩ := n
  unfold splitDefault at h
  split at h
  · next name arguments position he =>
    cases he
    rw [yields_ite] at h
    rcases h with ⟨rfl, h⟩ | ⟨hname, h⟩
    · split at h
      · obtain ⟨rfl, rfl⟩ := yields_pure.mp h
        exact ⟨rfl, rfl⟩
      · exact absurd h yields_failAt
    · obtain ⟨rfl, rfl⟩ := yields_pure.mp h
      refine ⟨?_, rfl⟩
      unfold splitDefaultOf
      split
      · next he => cases he; rw [if_neg hname]
      · rfl
  · next he =>
    obtain ⟨rfl, rfl⟩ := yields_pure.mp h
    refine ⟨?_, rfl⟩
    unfold splitDefaultOf
    split
    · next he' => exact absurd he' (he _ _ _)
    · rfl

/-! ### The types of a member -/

section Step

variable {rec : Resolver}

theorem alternative_keeps (hrec : IsResolver ctx asked rec) (hinv : Inv ctx asked U r)
    (hadmits : Admits ctx asked n) (h : Yields (alternative ctx rec owner n) r t r') :
    Keeps ctx asked U r r' ∧ IsAlternative ctx.scope r'.keys n t := by
  rw [alternative, yields_bind] at h
  obtain ⟨inner, a, hstrip, h⟩ := h
  obtain ⟨hstrips, rfl⟩ := strips_of_yields hstrip
  obtain ⟨hkeeps, hdenotes⟩ := hrec hinv (hadmits inner hstrips) h
  exact ⟨hkeeps, inner, hstrips, hdenotes⟩

/-- The arguments of a method are the record that its only parameter stands for. -/
theorem argumentBag_keeps (hrec : IsResolver ctx asked rec) (hinv : Inv ctx asked U r)
    (hadmits : ∀ n ∈ parts s, Admits ctx asked n) {bag : Option Nat}
    (h : Yields (argumentBag ctx rec s (parametersOf s.property)) r bag r') :
    Keeps ctx asked U r r' ∧ IsBag ctx.scope r'.keys (recordsOf r') s bag := by
  rw [IsBag]
  cases hps : parametersOf s.property with
  | nil =>
    rw [hps] at h
    obtain ⟨rfl, rfl⟩ := yields_pure.mp h
    exact ⟨.refl hinv, rfl⟩
  | cons p more =>
    rw [hps] at h
    cases more with
    | cons q more => exact absurd h yields_failAt
    | nil =>
      have hpart : (⟨s.site.child 1, p.type⟩ : Node) ∈ parts s := by
        rw [parts, hps]
        exact List.mem_cons_self ..
      rw [argumentBag, yields_bind] at h
      obtain ⟨inner, a, hstrip, h⟩ := h
      obtain ⟨hstrips, rfl⟩ := strips_of_yields hstrip
      rw [yields_bind] at h
      obtain ⟨t, b, hresolved, h⟩ := h
      obtain ⟨hkeeps, hdenotes⟩ := hrec hinv (hadmits _ hpart inner hstrips) hresolved
      rw [yields_get_bind] at h
      split at h
      · next slot =>
        rw [yields_ite] at h
        rcases h with ⟨hrecord, h⟩ | ⟨-, h⟩
        · obtain ⟨rfl, rfl⟩ := yields_pure.mp h
          exact ⟨hkeeps, slot, ⟨inner, hstrips, hdenotes⟩, hrecord, rfl⟩
        · exact absurd h yields_failAt
      · exact absurd h yields_failAt

theorem splitArguments_keeps (hrec : IsResolver ctx asked rec) (hinv : Inv ctx asked U r)
    (hadmits : ∀ n ∈ parts s, Admits ctx asked n) {x : Option Nat × Node}
    (h : Yields (splitArguments ctx rec s) r x r') :
    Keeps ctx asked U r r' ∧ IsBag ctx.scope r'.keys (recordsOf r') s x.1 ∧ x.2 = resultOf s := by
  unfold splitArguments at h
  split at h
  · next parameters result htype =>
    have hparameters : parametersOf s.property = parameters := by rw [parametersOf, htype]
    obtain ⟨bag, a, hbag, h⟩ := yields_bind.mp h
    obtain ⟨rfl, rfl⟩ := yields_pure.mp h
    rw [← hparameters] at hbag
    obtain ⟨hkeeps, hbag⟩ := argumentBag_keeps hrec hinv hadmits hbag
    exact ⟨hkeeps, hbag, by rw [resultOf, htype]⟩
  · next hfunction =>
    obtain ⟨rfl, rfl⟩ := yields_pure.mp h
    have hparameters : parametersOf s.property = [] := by
      unfold parametersOf
      split
      · next htype => exact absurd htype (hfunction _ _)
      · rfl
    refine ⟨.refl hinv, by rw [IsBag, hparameters], ?_⟩
    unfold resultOf
    split
    · next htype => exact absurd htype (hfunction _ _)
    · rfl

theorem typeOf_mem_parts : typeOf s ∈ parts s := mem_parts.mpr (.inl rfl)

/-- **Members.** What a member becomes is what it stands for. -/
theorem member_keeps (hrec : IsResolver ctx asked rec) (hinv : Inv ctx asked U r)
    (hadmits : ∀ n ∈ parts s, Admits ctx asked n) {m : Member}
    (h : Yields (member ctx rec s) r m r') :
    Keeps ctx asked U r r' ∧ IsMember ctx.scope r'.keys (recordsOf r') s m := by
  unfold member at h
  simp only [yields_bind, Prod.exists] at h
  obtain ⟨bag, result, a, hbag, type, default, b, hdefault, inner, c, hstrip, t, d, hresolved, _, _,
    hget, h⟩ := h
  obtain ⟨hkeeps, hbag, rfl⟩ := splitArguments_keeps hrec hinv hadmits hbag
  obtain ⟨hsplit, rfl⟩ := yields_splitDefault hdefault
  have htype : typeOf s = type := congrArg Prod.fst hsplit.symm
  have hvalue : default = defaultOf s := congrArg Prod.snd hsplit
  subst htype
  obtain ⟨hstrips, rfl⟩ := strips_of_yields hstrip
  obtain ⟨hkeeps', hdenotes⟩ :=
    hrec hkeeps.inv (hadmits _ typeOf_mem_parts inner hstrips) hresolved
  obtain ⟨rfl, rfl⟩ := yields_get.mp hget
  -- the check of the default value changes nothing
  have hmade : m = ⟨s.property.name, t, s.property.doc, s.property.optional, inner.nullable,
      default, bag⟩ ∧ r' = d := by
    split at h
    · rw [yields_ite] at h
      rcases h with ⟨-, h⟩ | ⟨-, h⟩
      · obtain ⟨_, _, hfail, -⟩ := yields_bind.mp h
        exact absurd hfail yields_failAt
      · obtain ⟨rfl, rfl⟩ := yields_pure.mp h
        exact ⟨rfl, rfl⟩
    · obtain ⟨rfl, rfl⟩ := yields_pure.mp h
      exact ⟨rfl, rfl⟩
  obtain ⟨rfl, rfl⟩ := hmade
  refine ⟨hkeeps.trans hkeeps', rfl, rfl, rfl, ⟨inner, hstrips, hdenotes, rfl⟩, hvalue, ?_⟩
  exact hbag.mono hkeeps'.grows.keys fun _ => hkeeps'.grows.records

/-! ### The members of a record -/

/-- **Written members** become what they stand for, one by one. -/
theorem members_keeps (hrec : IsResolver ctx asked rec) (hinv : Inv ctx asked U r)
    {ss : List Signature} (hadmits : ∀ n ∈ ss.flatMap parts, Admits ctx asked n)
    {ms : List Member} (h : Yields (members ctx rec ss) r ms r') :
    Keeps ctx asked U r r' ∧
      List.Forall₂ (IsMember ctx.scope r'.keys (recordsOf r')) ss ms := by
  obtain ⟨hinv', hgrows, hall⟩ := Yields.mapM (Inv ctx asked U) (Grows ctx asked)
    (fun r => IsMember ctx.scope r.keys (recordsOf r)) .refl .trans
    (fun hgrows hm => hm.mono hgrows.keys fun _ => hgrows.records)
    (fun s hs a m b ha hm => by
      obtain ⟨hkeeps, hm⟩ := member_keeps hrec ha
        (fun n hn => hadmits n (List.mem_flatMap.mpr ⟨s, hs, hn⟩)) hm
      exact ⟨hkeeps.inv, hkeeps.grows, hm⟩) h hinv
  exact ⟨⟨hinv', hgrows⟩, hall⟩

theorem inherit_keeps (hrec : IsResolver ctx asked rec) (hinv : Inv ctx asked U r)
    {step : LineageStep} (hadmits : ∀ n ∈ stepParts step, Admits ctx asked n)
    {ms ms' : List Member} (h : Yields (inherit ctx rec ms step) r ms' r') :
    Keeps ctx asked U r r' ∧ ∃ m, IsInherited ctx.scope r'.keys (recordsOf r') step m ∧
      ms' = insertByKey Member.name m ms := by
  cases step with
  | member s =>
    rw [inherit, yields_bind] at h
    obtain ⟨m, a, hm, h⟩ := h
    obtain ⟨rfl, rfl⟩ := yields_pure.mp h
    obtain ⟨hkeeps, hm⟩ := member_keeps hrec hinv hadmits hm
    exact ⟨hkeeps, m, ⟨s, rfl, hm⟩, rfl⟩
  | inheritsItself d => exact absurd h yields_failAt
  | notABase d base => exact absurd h yields_failAt

theorem foldlM_inherit_keeps (hrec : IsResolver ctx asked rec) (hinv : Inv ctx asked U r)
    {steps : List LineageStep} (hadmits : ∀ n ∈ steps.flatMap stepParts, Admits ctx asked n)
    {acc out : List Member} (h : Yields (steps.foldlM (inherit ctx rec) acc) r out r') :
    Keeps ctx asked U r r' ∧
      ∃ ms, List.Forall₂ (IsInherited ctx.scope r'.keys (recordsOf r')) steps ms ∧
        out = ms.foldl (fun table m => insertByKey Member.name m table) acc := by
  induction steps generalizing acc r with
  | nil =>
    obtain ⟨rfl, rfl⟩ := yields_pure.mp h
    exact ⟨.refl hinv, [], .nil, rfl⟩
  | cons step rest ih =>
    rw [List.foldlM_cons, yields_bind] at h
    obtain ⟨acc', a, hstep, h⟩ := h
    obtain ⟨hkeeps, m, hm, rfl⟩ := inherit_keeps hrec hinv
      (fun n hn => hadmits n (List.mem_flatMap.mpr ⟨step, List.mem_cons_self .., hn⟩)) hstep
    have hrest : ∀ n ∈ rest.flatMap stepParts, Admits ctx asked n := by
      intro n hn
      obtain ⟨step', hstep', hn⟩ := List.mem_flatMap.mp hn
      exact hadmits n (List.mem_flatMap.mpr ⟨step', List.mem_cons_of_mem _ hstep', hn⟩)
    obtain ⟨hkeeps', ms, hms, rfl⟩ := ih hkeeps.inv hrest h
    refine ⟨hkeeps.trans hkeeps', m :: ms, .cons ?_ hms, rfl⟩
    exact hm.mono hkeeps'.grows.keys fun _ => hkeeps'.grows.records

/-- **Inherited members** become what they stand for, and of each name the last one counts. -/
theorem foldLineage_keeps (hrec : IsResolver ctx asked rec) (hinv : Inv ctx asked U r)
    {d : Interface} (hadmits : ∀ n ∈ (lineage ctx.scope d).flatMap stepParts, Admits ctx asked n)
    {out : List Member} (h : Yields (foldLineage ctx.scope (inherit ctx rec) d []) r out r') :
    Keeps ctx asked U r r' ∧
      ∃ ms, List.Forall₂ (IsInherited ctx.scope r'.keys (recordsOf r')) (lineage ctx.scope d) ms ∧
        out = lastOfEach Member.name ms := by
  rw [foldLineage_eq_foldlM] at h
  obtain ⟨hkeeps, ms, hms, rfl⟩ := foldlM_inherit_keeps hrec hinv hadmits h
  exact ⟨hkeeps, ms, hms, foldl_insertByKey ms⟩

end Step

end Extraction

end DeclaredSchema
