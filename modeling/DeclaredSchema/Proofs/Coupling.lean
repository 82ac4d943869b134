import DeclaredSchema.Proofs.Step

/-!
# Steps that end alike

Two steps are coupled if from one state they end with the same value or with the same error, and
leave the same state. What is known of the state that they start in says what is known of the one
that they leave. It outlives a failure, so there are two ends to speak of. In a sequence of steps
each starts with what is known after the one before it, and all of them have the same to say of
failures.

Where one of the two is of no interest, coupling a step with itself says what it brings about.

## Main definitions

* `Coupled` — two steps with the same outcome

## Main results

* `Coupled.bind`, `coupled_get_bind`, `coupled_ite` — how coupled steps are put together
* `Coupled.mapM` — what every step of a traversal keeps, the traversal keeps
-/

namespace DeclaredSchema

variable {ε σ α β γ : Type}

/-- What is known of an outcome. -/
def EndsIn (T : α → Prop) (E : ε → Prop) : Except ε α → Prop
  | .ok a => T a
  | .error e => E e

/-- From a state with `S`, two steps have the same outcome and leave the same state, of which `T` is
known after a success and `E` after a failure. -/
def Coupled (S : σ → Prop) (m m' : ExceptT ε (StateM σ) α) (T : α → σ → Prop) (E : ε → σ → Prop) :
    Prop :=
  ∀ s, S s → ∃ (outcome : Except ε α) (t : σ),
    @Eq (Except ε α × σ) (m.run s) (outcome, t) ∧
    @Eq (Except ε α × σ) (m'.run s) (outcome, t) ∧ EndsIn (T · t) (E · t) outcome

variable {S S' : σ → Prop} {T T' : α → σ → Prop} {V : β → σ → Prop} {E : ε → σ → Prop}
  {m m' n n' : ExceptT ε (StateM σ) α}

theorem Coupled.mono (h : Coupled S m m' T E) (hS : ∀ s, S' s → S s)
    (hT : ∀ a s, T a s → T' a s) : Coupled S' m m' T' E := by
  intro s hs
  obtain ⟨outcome, t, hm, hm', hend⟩ := h s (hS s hs)
  refine ⟨outcome, t, hm, hm', ?_⟩
  cases outcome with
  | ok a => exact hT a t hend
  | error e => exact hend

theorem coupled_pure {a : α} (h : ∀ s, S s → T a s) : Coupled S (pure a) (pure a) T E :=
  fun s hs => ⟨.ok a, s, rfl, rfl, h s hs⟩

theorem coupled_throw {e : ε} (h : ∀ s, S s → E e s) : Coupled S (throw e) (throw e) T E :=
  fun s hs => ⟨.error e, s, rfl, rfl, h s hs⟩

theorem coupled_modify {f : σ → σ} {T : PUnit → σ → Prop} (h : ∀ s, S s → T ⟨⟩ (f s)) :
    Coupled S (modify f) (modify f) T E :=
  fun s hs => ⟨.ok ⟨⟩, f s, rfl, rfl, h s hs⟩

theorem coupled_set {t : σ} {T : PUnit → σ → Prop} (h : T ⟨⟩ t) :
    Coupled S (set t) (set t) T E :=
  fun _ _ => ⟨.ok ⟨⟩, t, rfl, rfl, h⟩

theorem Coupled.bind {f f' : α → ExceptT ε (StateM σ) β} (hm : Coupled S m m' T E)
    (hf : ∀ a, Coupled (T a) (f a) (f' a) V E) : Coupled S (m >>= f) (m' >>= f') V E := by
  intro s hs
  obtain ⟨outcome, t, hm, hm', hend⟩ := hm s hs
  cases outcome with
  | error e => exact ⟨.error e, t, run_bind_of_error hm, run_bind_of_error hm', hend⟩
  | ok a =>
    obtain ⟨outcome, u, hf, hf', hend⟩ := hf a t hend
    exact ⟨outcome, u, (run_bind_of_ok hm).trans hf, (run_bind_of_ok hm').trans hf', hend⟩

/-- Steps that go on with the state that they start in. -/
theorem coupled_get_bind {f f' : σ → ExceptT ε (StateM σ) β}
    (h : ∀ s, S s → Coupled (· = s) (f s) (f' s) V E) : Coupled S (get >>= f) (get >>= f') V E :=
  fun s hs => h s hs s rfl

theorem coupled_ite {c : Prop} [Decidable c] (hm : c → Coupled S m m' T E)
    (hn : ¬c → Coupled S n n' T E) :
    Coupled S (if c then m else n) (if c then m' else n') T E := by
  by_cases hc : c
  · rw [if_pos hc, if_pos hc]
    exact hm hc
  · rw [if_neg hc, if_neg hc]
    exact hn hc

/-- What every step of a traversal keeps, the traversal keeps. -/
theorem Coupled.mapM {f f' : γ → ExceptT ε (StateM σ) β} {xs : List γ}
    (h : ∀ x ∈ xs, Coupled S (f x) (f' x) (fun _ => S) E) :
    Coupled S (xs.mapM f) (xs.mapM f') (fun _ => S) E := by
  induction xs with
  | nil =>
    rw [List.mapM_nil, List.mapM_nil]
    exact coupled_pure fun _ hs => hs
  | cons x rest ih =>
    rw [List.mapM_cons, List.mapM_cons]
    refine (h x (List.mem_cons_self ..)).bind fun y => ?_
    exact (ih fun z hz => h z (List.mem_cons_of_mem x hz)).bind fun ys =>
      coupled_pure fun _ hs => hs

end DeclaredSchema
