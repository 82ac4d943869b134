import DeclaredSchema.Proofs.Step

/-!
# Steps that follow each other

Two runs over different tables do the same if each step of the one is followed by a step of the
other: from related states, whenever the one succeeds, the other succeeds with the same value, and
the states are related again. The states need not be equal, and of a failure nothing is asked, so a
run may fail for a reason of its own as long as the other one does not succeed.

`Follows S T m m'` says so of single steps, with `S` for the states before and `T` for those after
them. The relations may differ, since a step may take something on the way that later steps rely on.

## Main definitions

* `Follows` — `m'` succeeds whenever `m` does, with the same value

## Main results

* `Follows.bind`, `follows_ite` — how steps that follow each other are put together
* `Follows.mapM` — traversals of lists whose elements correspond
-/

namespace DeclaredSchema

variable {ε σ σ' α β γ γ' : Type} {S S' T T' V : σ → σ' → Prop}

/-- From states related by `S`, `m'` succeeds whenever `m` does, with the same value, and leaves
states related by `T`. -/
def Follows (S T : σ → σ' → Prop) (m : ExceptT ε (StateM σ) α) (m' : ExceptT ε (StateM σ') α) :
    Prop :=
  ∀ s s' a t, S s s' → Yields m s a t → ∃ t', Yields m' s' a t' ∧ T t t'

variable {m n : ExceptT ε (StateM σ) α} {m' n' : ExceptT ε (StateM σ') α}

theorem Follows.mono (h : Follows S T m m') (hS : ∀ {s s'}, S' s s' → S s s')
    (hT : ∀ {t t'}, T t t' → T' t t') : Follows S' T' m m' := by
  intro s s' a t hs hm
  obtain ⟨t', hm', ht⟩ := h s s' a t (hS hs) hm
  exact ⟨t', hm', hT ht⟩

theorem follows_pure (hS : ∀ {s s'}, S s s' → T s s') (a : α) :
    Follows S T (pure a : ExceptT ε (StateM σ) α) (pure a : ExceptT ε (StateM σ') α) := by
  intro s s' b t hs hm
  obtain ⟨rfl, rfl⟩ := yields_pure.mp hm
  exact ⟨s', yields_pure.mpr ⟨rfl, rfl⟩, hS hs⟩

/-- Anything follows a step that fails. -/
theorem follows_throw (e : ε) : Follows S T (throw e : ExceptT ε (StateM σ) α) m' := by
  intro s s' a t _ hm
  exact absurd hm yields_throw

theorem follows_throw_bind {f : α → ExceptT ε (StateM σ) β} {n' : ExceptT ε (StateM σ') β} (e : ε) :
    Follows S T (throw e >>= f) n' := by
  intro s s' b t _ h
  obtain ⟨a, t, hthrow, -⟩ := yields_bind.mp h
  exact absurd hthrow yields_throw

theorem Follows.bind {f : α → ExceptT ε (StateM σ) β} {f' : α → ExceptT ε (StateM σ') β}
    (hm : Follows S T m m') (hf : ∀ a, Follows T V (f a) (f' a)) :
    Follows S V (m >>= f) (m' >>= f') := by
  intro s s' b v hs h
  obtain ⟨a, t, ha, hb⟩ := yields_bind.mp h
  obtain ⟨t', ha', ht⟩ := hm s s' a t hs ha
  obtain ⟨v', hb', hv⟩ := hf a t t' b v ht hb
  exact ⟨v', yields_bind.mpr ⟨a, t', ha', hb'⟩, hv⟩

/-- Steps that go on with the states that they start in. -/
theorem follows_get_bind {f : σ → ExceptT ε (StateM σ) β} {f' : σ' → ExceptT ε (StateM σ') β}
    (hf : ∀ s s', S s s' → Follows S T (f s) (f' s')) : Follows S T (get >>= f) (get >>= f') := by
  intro s s' b t hs h
  obtain ⟨t', hb', ht⟩ := hf s s' hs s s' b t hs (yields_get_bind.mp h)
  exact ⟨t', yields_get_bind.mpr hb', ht⟩

theorem follows_modify {f : σ → σ} {f' : σ' → σ'} (hS : ∀ {s s'}, S s s' → T (f s) (f' s')) :
    Follows S T (modify f : ExceptT ε (StateM σ) PUnit)
      (modify f' : ExceptT ε (StateM σ') PUnit) := by
  intro s s' u t hs hm
  obtain rfl := yields_modify.mp hm
  exact ⟨f' s', yields_modify.mpr rfl, hS hs⟩

theorem follows_ite {c : Prop} [Decidable c] (hm : c → Follows S T m m')
    (hn : ¬c → Follows S T n n') : Follows S T (if c then m else n) (if c then m' else n') := by
  by_cases hc : c
  · rw [if_pos hc, if_pos hc]
    exact hm hc
  · rw [if_neg hc, if_neg hc]
    exact hn hc

/-- Traversals of lists whose elements correspond. -/
theorem Follows.mapM {R : γ → γ' → Prop} {f : γ → ExceptT ε (StateM σ) β}
    {f' : γ' → ExceptT ε (StateM σ') β} (hf : ∀ x x', R x x' → Follows S S (f x) (f' x'))
    {xs : List γ} {xs' : List γ'} (h : List.Forall₂ R xs xs') :
    Follows S S (xs.mapM f) (xs'.mapM f') := by
  induction h with
  | nil =>
    rw [List.mapM_nil, List.mapM_nil]
    exact follows_pure id []
  | cons hx _ ih =>
    rw [List.mapM_cons, List.mapM_cons]
    exact (hf _ _ hx).bind fun y => ih.bind fun ys => follows_pure id (y :: ys)

end DeclaredSchema
