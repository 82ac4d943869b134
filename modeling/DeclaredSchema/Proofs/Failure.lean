import DeclaredSchema.Proofs.Step

/-!
# Steps that fail

The other side of the runs that succeed: `Fails m s e` says that `m`, taken in the state `s`, fails
with `e`. What a failure leaves of the state does not matter. A run of several steps fails when one
of them does, and the steps before it succeed.

## Main definitions

* `Fails` — the failing run of a step

## Main results

* `fails_bind`, `fails_throw`, `fails_ite` — where a run fails
* `Fails.mapM`, `Fails.foldlM`, `Fails.forM` — a traversal fails at an element
-/

namespace DeclaredSchema

variable {ε σ α β : Type}

/-- The step `m`, taken in the state `s`, fails with `e`. -/
def Fails (m : ExceptT ε (StateM σ) α) (s : σ) (e : ε) : Prop :=
  ∃ s', @Eq (Except ε α × σ) (m.run s) (.error e, s')

variable {m n : ExceptT ε (StateM σ) α} {s s' : σ} {e e' : ε}

/-! ### Putting steps together -/

@[simp] theorem fails_pure {a : α} : ¬Fails (pure a : ExceptT ε (StateM σ) α) s e := by
  rintro ⟨s', h⟩
  cases h

@[simp] theorem fails_throw :
    Fails (throw e' : ExceptT ε (StateM σ) α) s e ↔ e = e' := by
  constructor
  · rintro ⟨s', h⟩
    cases h
    rfl
  · rintro rfl
    exact ⟨s, rfl⟩

@[simp] theorem fails_bind {f : α → ExceptT ε (StateM σ) β} :
    Fails (m >>= f) s e ↔ Fails m s e ∨ ∃ a t, Yields m s a t ∧ Fails (f a) t e := by
  constructor
  · rintro ⟨s', h⟩
    rcases hm : m.run s with ⟨(x | a), t⟩
    · cases (run_bind_of_error hm).symm.trans h
      exact .inl ⟨s', hm⟩
    · exact .inr ⟨a, t, hm, s', (run_bind_of_ok hm).symm.trans h⟩
  · rintro (⟨s', hm⟩ | ⟨a, t, hm, s', hf⟩)
    · exact ⟨s', run_bind_of_error hm⟩
    · exact ⟨s', (run_bind_of_ok hm).trans hf⟩

@[simp] theorem fails_map {f : α → β} : Fails (f <$> m) s e ↔ Fails m s e := by
  rw [← bind_pure_comp, fails_bind]
  simp

@[simp] theorem fails_get : ¬Fails (get : ExceptT ε (StateM σ) σ) s e := by
  rintro ⟨s', h⟩
  cases h

@[simp] theorem fails_get_bind {f : σ → ExceptT ε (StateM σ) β} :
    Fails (get >>= f) s e ↔ Fails (f s) s e := by
  rw [fails_bind]
  simp

@[simp] theorem fails_set {t : σ} : ¬Fails (set t : ExceptT ε (StateM σ) PUnit) s e := by
  rintro ⟨s', h⟩
  cases h

@[simp] theorem fails_modify {f : σ → σ} :
    ¬Fails (modify f : ExceptT ε (StateM σ) PUnit) s e := by
  rintro ⟨s', h⟩
  cases h

theorem fails_ite {c : Prop} [Decidable c] :
    Fails (if c then m else n) s e ↔ c ∧ Fails m s e ∨ ¬c ∧ Fails n s e := by
  by_cases h : c <;> simp [h]

/-! ### Traversals

`Good` holds between two steps. -/

section Traversal

variable (Good : σ → Prop)

theorem Fails.mapM {f : α → ExceptT ε (StateM σ) β} {xs : List α}
    (hstep : ∀ x ∈ xs, ∀ s y t, Good s → Yields (f x) s y t → Good t)
    (h : Fails (xs.mapM f) s e) (hs : Good s) : ∃ x ∈ xs, ∃ t, Good t ∧ Fails (f x) t e := by
  induction xs generalizing s with
  | nil =>
    rw [List.mapM_nil] at h
    exact absurd h fails_pure
  | cons x rest ih =>
    simp only [List.mapM_cons, fails_bind, fails_pure, exists_false, and_false, or_false] at h
    rcases h with h | ⟨y, t, hy, h⟩
    · exact ⟨x, List.mem_cons_self .., s, hs, h⟩
    · obtain ⟨z, hz, hfails⟩ := ih (fun z hz => hstep z (List.mem_cons_of_mem x hz)) h
        (hstep x (List.mem_cons_self ..) s y t hs hy)
      exact ⟨z, List.mem_cons_of_mem x hz, hfails⟩

theorem Fails.foldlM {f : β → α → ExceptT ε (StateM σ) β} {xs : List α} {acc : β}
    (hstep : ∀ x ∈ xs, ∀ s acc y t, Good s → Yields (f acc x) s y t → Good t)
    (h : Fails (xs.foldlM f acc) s e) (hs : Good s) :
    ∃ x ∈ xs, ∃ acc t, Good t ∧ Fails (f acc x) t e := by
  induction xs generalizing s acc with
  | nil => exact absurd h fails_pure
  | cons x rest ih =>
    rw [List.foldlM_cons, fails_bind] at h
    rcases h with h | ⟨y, t, hy, h⟩
    · exact ⟨x, List.mem_cons_self .., acc, s, hs, h⟩
    · obtain ⟨z, hz, hfails⟩ := ih (fun z hz => hstep z (List.mem_cons_of_mem x hz)) h
        (hstep x (List.mem_cons_self ..) s acc y t hs hy)
      exact ⟨z, List.mem_cons_of_mem x hz, hfails⟩

theorem Fails.forM {f : α → ExceptT ε (StateM σ) PUnit} {xs : List α}
    (hstep : ∀ x ∈ xs, ∀ s y t, Good s → Yields (f x) s y t → Good t)
    (h : Fails (xs.forM f) s e) (hs : Good s) : ∃ x ∈ xs, ∃ t, Good t ∧ Fails (f x) t e := by
  induction xs generalizing s with
  | nil =>
    have hnil : Fails (pure ⟨⟩ : ExceptT ε (StateM σ) PUnit) s e := h
    exact absurd hnil fails_pure
  | cons x rest ih =>
    rw [List.forM_eq_forM, List.forM_cons, fails_bind] at h
    rcases h with h | ⟨y, t, hy, h⟩
    · exact ⟨x, List.mem_cons_self .., s, hs, h⟩
    · obtain ⟨z, hz, hfails⟩ := ih (fun z hz => hstep z (List.mem_cons_of_mem x hz)) h
        (hstep x (List.mem_cons_self ..) s y t hs hy)
      exact ⟨z, List.mem_cons_of_mem x hz, hfails⟩

end Traversal

end DeclaredSchema
