import DeclaredSchema.Proofs.Failure
import DeclaredSchema.Proofs.Simulation

/-!
# Steps that agree

Two steps that follow each other need not fail alike. They agree if they do: whenever the one fails,
the other fails with the same error, unless the error is excused. What is excused is up to the use;
if everything is, to agree is to follow.

## Main definitions

* `Agrees` — `m'` has the outcome of `m`, up to errors that are excused

## Main results

* `Agrees.bind`, `agrees_ite` — how steps that agree are put together
* `Agrees.mapM`, `Agrees.foldlM`, `Agrees.forM` — traversals of one list
-/

namespace DeclaredSchema

variable {ε σ σ' α β γ : Type} {X : ε → Prop} {S T V : σ → σ' → Prop}

/-- From states related by `S`, `m'` has the outcome of `m`: it succeeds with the same value, and
leaves states related by `T`, or it fails with the same error, if that is not excused by `X`. -/
structure Agrees (X : ε → Prop) (S T : σ → σ' → Prop) (m : ExceptT ε (StateM σ) α)
    (m' : ExceptT ε (StateM σ') α) : Prop where
  follows : Follows S T m m'
  fails : ∀ s s' e, S s s' → Fails m s e → X e ∨ Fails m' s' e

variable {m n : ExceptT ε (StateM σ) α} {m' n' : ExceptT ε (StateM σ') α}

/-- Steps that follow each other agree, if everything is excused. -/
theorem Follows.agrees (h : Follows S T m m') (hX : ∀ e, X e) : Agrees X S T m m' :=
  ⟨h, fun _ _ e _ _ => .inl (hX e)⟩

theorem agrees_pure (hS : ∀ {s s'}, S s s' → T s s') (a : α) :
    Agrees X S T (pure a : ExceptT ε (StateM σ) α) (pure a : ExceptT ε (StateM σ') α) :=
  ⟨follows_pure hS a, fun _ _ _ _ h => absurd h fails_pure⟩

theorem agrees_throw (e : ε) :
    Agrees X S T (throw e : ExceptT ε (StateM σ) α) (throw e : ExceptT ε (StateM σ') α) := by
  refine ⟨follows_throw e, fun s s' x _ h => .inr ?_⟩
  rw [fails_throw] at h ⊢
  exact h

/-- Anything agrees with a step whose error is excused. -/
theorem agrees_of_excused {e : ε} (he : X e) :
    Agrees X S T (throw e : ExceptT ε (StateM σ) α) m' := by
  refine ⟨follows_throw e, fun s s' x _ h => .inl ?_⟩
  rwa [fails_throw.mp h]

theorem Agrees.bind {f : α → ExceptT ε (StateM σ) β} {f' : α → ExceptT ε (StateM σ') β}
    (hm : Agrees X S T m m') (hf : ∀ a, Agrees X T V (f a) (f' a)) :
    Agrees X S V (m >>= f) (m' >>= f') where
  follows := hm.follows.bind fun a => (hf a).follows
  fails := by
    intro s s' e hs h
    rcases fails_bind.mp h with h | ⟨a, t, ha, h⟩
    · exact (hm.fails s s' e hs h).imp_right fun h => fails_bind.mpr (.inl h)
    · obtain ⟨t', ha', ht⟩ := hm.follows s s' a t hs ha
      exact ((hf a).fails t t' e ht h).imp_right fun h => fails_bind.mpr (.inr ⟨a, t', ha', h⟩)

theorem Agrees.map {f : α → β} (hm : Agrees X S T m m') : Agrees X S T (f <$> m) (f <$> m') := by
  rw [← bind_pure_comp, ← bind_pure_comp]
  exact hm.bind fun a => agrees_pure id (f a)

/-- Steps that go on with the states that they start in. -/
theorem agrees_get_bind {f : σ → ExceptT ε (StateM σ) β} {f' : σ' → ExceptT ε (StateM σ') β}
    (hf : ∀ s s', S s s' → Agrees X S T (f s) (f' s')) :
    Agrees X S T (get >>= f) (get >>= f') where
  follows := follows_get_bind fun s s' hs => (hf s s' hs).follows
  fails := by
    intro s s' e hs h
    exact ((hf s s' hs).fails s s' e hs (fails_get_bind.mp h)).imp_right fails_get_bind.mpr

theorem agrees_modify {f : σ → σ} {f' : σ' → σ'} (hS : ∀ {s s'}, S s s' → T (f s) (f' s')) :
    Agrees X S T (modify f : ExceptT ε (StateM σ) PUnit)
      (modify f' : ExceptT ε (StateM σ') PUnit) :=
  ⟨follows_modify hS, fun _ _ _ _ h => absurd h fails_modify⟩

theorem agrees_ite {c : Prop} [Decidable c] (hm : c → Agrees X S T m m')
    (hn : ¬c → Agrees X S T n n') : Agrees X S T (if c then m else n) (if c then m' else n') := by
  by_cases hc : c
  · rw [if_pos hc, if_pos hc]
    exact hm hc
  · rw [if_neg hc, if_neg hc]
    exact hn hc

/-! ### Traversals -/

theorem Agrees.mapM {f : γ → ExceptT ε (StateM σ) β} {f' : γ → ExceptT ε (StateM σ') β}
    (hf : ∀ x, Agrees X S S (f x) (f' x)) (xs : List γ) :
    Agrees X S S (xs.mapM f) (xs.mapM f') := by
  induction xs with
  | nil =>
    rw [List.mapM_nil, List.mapM_nil]
    exact agrees_pure id []
  | cons x rest ih =>
    rw [List.mapM_cons, List.mapM_cons]
    exact (hf x).bind fun y => ih.bind fun ys => agrees_pure id (y :: ys)

theorem Agrees.foldlM {f : β → γ → ExceptT ε (StateM σ) β} {f' : β → γ → ExceptT ε (StateM σ') β}
    (hf : ∀ acc x, Agrees X S S (f acc x) (f' acc x)) (xs : List γ) (acc : β) :
    Agrees X S S (xs.foldlM f acc) (xs.foldlM f' acc) := by
  induction xs generalizing acc with
  | nil => exact agrees_pure id acc
  | cons x rest ih =>
    rw [List.foldlM_cons, List.foldlM_cons]
    exact (hf acc x).bind ih

theorem Agrees.forM {f : γ → ExceptT ε (StateM σ) PUnit} {f' : γ → ExceptT ε (StateM σ') PUnit}
    {xs : List γ} (hf : ∀ x ∈ xs, Agrees X S S (f x) (f' x)) :
    Agrees X S S (xs.forM f) (xs.forM f') := by
  induction xs with
  | nil => exact agrees_pure id PUnit.unit
  | cons x rest ih =>
    rw [List.forM_eq_forM, List.forM_eq_forM, List.forM_cons, List.forM_cons]
    exact (hf x (List.mem_cons_self ..)).bind fun _ =>
      ih fun y hy => hf y (List.mem_cons_of_mem x hy)

end DeclaredSchema
