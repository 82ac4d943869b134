import Mathlib.Data.List.Forall2

/-!
# Steps that succeed

Extraction and synthesis are sequences of steps that change a state and may fail, and the state
outlives a failure. What is proved of them is what a success brings about, so the runs that fail are
set aside once and for all: `Yields m s a s'` says that `m`, taken in the state `s`, succeeds with
`a` and leaves `s'`. Each way to put steps together is one equivalence, and with them a run comes
apart into the runs of its parts.

## Main definitions

* `Yields` — the successful run of a step

## Main results

* `yields_bind`, `yields_pure`, `yields_ite` — the parts of a run
* `Yields.mapM`, `Yields.forM` — what every step of a traversal keeps, the traversal keeps
-/

namespace DeclaredSchema

variable {ε σ α β : Type}

/-- The step `m`, taken in the state `s`, succeeds with `a` and leaves the state `s'`. -/
def Yields (m : ExceptT ε (StateM σ) α) (s : σ) (a : α) (s' : σ) : Prop :=
  @Eq (Except ε α × σ) (m.run s) (.ok a, s')

variable {m n : ExceptT ε (StateM σ) α} {s s' : σ}

/-! ### Putting steps together -/

/-- What comes after a step that fails is not done. -/
theorem run_bind_of_error {f : α → ExceptT ε (StateM σ) β} {e : ε}
    (h : @Eq (Except ε α × σ) (m.run s) (.error e, s')) :
    @Eq (Except ε β × σ) ((m >>= f).run s) (.error e, s') := by
  simp only [ExceptT.run] at h
  simp only [ExceptT.run, bind, ExceptT.bind, ExceptT.mk, StateT.bind, h, ExceptT.bindCont]
  rfl

/-- What comes after a step that succeeds starts where it ends. -/
theorem run_bind_of_ok {f : α → ExceptT ε (StateM σ) β} {a : α} (h : Yields m s a s') :
    @Eq (Except ε β × σ) ((m >>= f).run s) ((f a).run s') := by
  simp only [Yields, ExceptT.run] at h
  simp only [ExceptT.run, bind, ExceptT.bind, ExceptT.mk, StateT.bind, h, ExceptT.bindCont]

@[simp] theorem yields_pure {a b : α} :
    Yields (pure a : ExceptT ε (StateM σ) α) s b s' ↔ a = b ∧ s = s' := by
  constructor
  · intro h
    cases h
    exact ⟨rfl, rfl⟩
  · rintro ⟨rfl, rfl⟩
    rfl

@[simp] theorem yields_bind {f : α → ExceptT ε (StateM σ) β} {b : β} :
    Yields (m >>= f) s b s' ↔ ∃ a t, Yields m s a t ∧ Yields (f a) t b s' := by
  constructor
  · intro h
    rcases hm : m.run s with ⟨(e | a), t⟩
    · cases (run_bind_of_error hm).symm.trans h
    · exact ⟨a, t, hm, (run_bind_of_ok hm).symm.trans h⟩
  · rintro ⟨a, t, hm, hf⟩
    exact (run_bind_of_ok hm).trans hf

@[simp] theorem yields_map {f : α → β} {b : β} :
    Yields (f <$> m) s b s' ↔ ∃ a, Yields m s a s' ∧ f a = b := by
  rw [← bind_pure_comp, yields_bind]
  simp only [yields_pure]
  constructor
  · rintro ⟨a, t, hm, hb, rfl⟩
    exact ⟨a, hm, hb⟩
  · rintro ⟨a, hm, hb⟩
    exact ⟨a, s', hm, hb, rfl⟩

@[simp] theorem yields_throw {e : ε} {a : α} :
    ¬ Yields (throw e : ExceptT ε (StateM σ) α) s a s' := by
  intro h
  cases h

@[simp] theorem yields_get {t : σ} :
    Yields (get : ExceptT ε (StateM σ) σ) s t s' ↔ s = t ∧ s = s' := by
  constructor
  · intro h
    cases h
    exact ⟨rfl, rfl⟩
  · rintro ⟨rfl, rfl⟩
    rfl

/-- A step that goes on with the state it starts in. -/
@[simp] theorem yields_get_bind {f : σ → ExceptT ε (StateM σ) β} {b : β} :
    Yields (get >>= f) s b s' ↔ Yields (f s) s b s' := by
  rw [yields_bind]
  constructor
  · rintro ⟨_, _, hget, hf⟩
    obtain ⟨rfl, rfl⟩ := yields_get.mp hget
    exact hf
  · intro hf
    exact ⟨s, s, yields_get.mpr ⟨rfl, rfl⟩, hf⟩

@[simp] theorem yields_set {t : σ} {u : PUnit} :
    Yields (set t : ExceptT ε (StateM σ) PUnit) s u s' ↔ s' = t := by
  constructor
  · intro h
    cases h
    rfl
  · rintro rfl
    rfl

@[simp] theorem yields_modify {f : σ → σ} {u : PUnit} :
    Yields (modify f : ExceptT ε (StateM σ) PUnit) s u s' ↔ s' = f s := by
  constructor
  · intro h
    cases h
    rfl
  · rintro rfl
    rfl

theorem yields_ite {c : Prop} [Decidable c] {a : α} :
    Yields (if c then m else n) s a s' ↔ c ∧ Yields m s a s' ∨ ¬ c ∧ Yields n s a s' := by
  by_cases h : c <;> simp [h]

/-- A step succeeds in one way at most. -/
theorem Yields.unique {a b : α} {t : σ} (h : Yields m s a s') (h' : Yields m s b t) :
    a = b ∧ s' = t := by
  have heq := h.symm.trans h'
  cases heq
  exact ⟨rfl, rfl⟩

/-! ### Traversals

A traversal keeps what its steps keep. `Reaches` stands for the order in which states follow each
other, `Good` for what holds between two steps, and `Done` for what a step has achieved and later
steps do not undo. -/

/-- An element of the left list is related to one of the right list. -/
theorem exists_of_forall₂ {R : α → β → Prop} {xs : List α} {ys : List β}
    (h : List.Forall₂ R xs ys) {x : α} (hx : x ∈ xs) : ∃ y ∈ ys, R x y := by
  induction h with
  | nil => cases hx
  | cons hr _ ih =>
    rcases List.mem_cons.mp hx with rfl | hx
    · exact ⟨_, List.mem_cons_self .., hr⟩
    · obtain ⟨y, hy, hr⟩ := ih hx
      exact ⟨y, List.mem_cons_of_mem _ hy, hr⟩

section Traversal

variable (Good : σ → Prop) (Reaches : σ → σ → Prop) {f : α → ExceptT ε (StateM σ) β}

/-- What holds of every element that a traversal has produced, holds of all of them at its end. -/
theorem Yields.mapM (Done : σ → α → β → Prop) (hrefl : ∀ s, Reaches s s)
    (htrans : ∀ {s t u}, Reaches s t → Reaches t u → Reaches s u)
    (hdone : ∀ {s t x y}, Reaches s t → Done s x y → Done t x y) {xs : List α}
    (hstep : ∀ x ∈ xs, ∀ s y t, Good s → Yields (f x) s y t → Good t ∧ Reaches s t ∧ Done t x y)
    {ys : List β} (h : Yields (xs.mapM f) s ys s') (hs : Good s) :
    Good s' ∧ Reaches s s' ∧ List.Forall₂ (Done s') xs ys := by
  induction xs generalizing s ys with
  | nil =>
    rw [List.mapM_nil, yields_pure] at h
    obtain ⟨rfl, rfl⟩ := h
    exact ⟨hs, hrefl s, .nil⟩
  | cons x rest ih =>
    simp only [List.mapM_cons, yields_bind, yields_pure] at h
    obtain ⟨y, t, hx, zs, u, hrest, rfl, rfl⟩ := h
    obtain ⟨ht, hst, hy⟩ := hstep x (List.mem_cons_self ..) s y t hs hx
    obtain ⟨hu, htu, hzs⟩ :=
      ih (fun z hz => hstep z (List.mem_cons_of_mem x hz)) hrest ht
    exact ⟨hu, htrans hst htu, .cons (hdone htu hy) hzs⟩

/-- What a step achieves at every element, a traversal for its effects achieves at all of them. -/
theorem Yields.forM {g : α → ExceptT ε (StateM σ) PUnit} (Done : σ → α → Prop)
    (hrefl : ∀ s, Reaches s s) (htrans : ∀ {s t u}, Reaches s t → Reaches t u → Reaches s u)
    (hdone : ∀ {s t x}, Reaches s t → Done s x → Done t x) {xs : List α}
    (hstep : ∀ x ∈ xs, ∀ s y t, Good s → Yields (g x) s y t → Good t ∧ Reaches s t ∧ Done t x)
    {u : PUnit} (h : Yields (xs.forM g) s u s') (hs : Good s) :
    Good s' ∧ Reaches s s' ∧ ∀ x ∈ xs, Done s' x := by
  induction xs generalizing s with
  | nil =>
    have hnil : Yields (pure ⟨⟩ : ExceptT ε (StateM σ) PUnit) s u s' := h
    obtain ⟨-, rfl⟩ := yields_pure.mp hnil
    exact ⟨hs, hrefl s, fun x hx => absurd hx List.not_mem_nil⟩
  | cons x rest ih =>
    rw [List.forM_eq_forM, List.forM_cons, yields_bind] at h
    obtain ⟨y, t, hx, hrest⟩ := h
    obtain ⟨ht, hst, hy⟩ := hstep x (List.mem_cons_self ..) s y t hs hx
    obtain ⟨hu, htu, hall⟩ :=
      ih (fun z hz => hstep z (List.mem_cons_of_mem x hz)) hrest ht
    refine ⟨hu, htrans hst htu, fun z hz => ?_⟩
    rcases List.mem_cons.mp hz with rfl | hz
    · exact hdone htu hy
    · exact hall z hz

end Traversal

end DeclaredSchema
