/-!
# Outcomes

Readers, checks and conversions return a value or an error. How a chain of them ended is read off
here: a chain returns a value if each of its steps returned one, and it returns the error of the
first step that failed. What forgets the errors or translates them leaves values alone.
-/

namespace DeclaredSchema

variable {ε ε' α β : Type} {x : Except ε α} {a : α} {b : β} {e : ε}

@[simp] theorem pure_eq_ok (a : α) : (pure a : Except ε α) = .ok a := rfl

/-! ### Chains -/

@[simp] theorem ok_bind (a : α) (f : α → Except ε β) : (Except.ok a >>= f) = f a := rfl

theorem error_bind (e : ε) (f : α → Except ε β) : (Except.error e >>= f) = .error e := rfl

theorem bind_eq_ok {f : α → Except ε β} : x >>= f = .ok b ↔ ∃ a, x = .ok a ∧ f a = .ok b := by
  cases x with
  | error e => simp [error_bind]
  | ok a => simp

theorem bind_eq_error {f : α → Except ε β} :
    x >>= f = .error e ↔ x = .error e ∨ ∃ a, x = .ok a ∧ f a = .error e := by
  cases x with
  | error e' => simp [error_bind]
  | ok a => simp

/-! ### Translations -/

theorem map_eq_ok {f : α → β} : x.map f = .ok b ↔ ∃ a, x = .ok a ∧ f a = b := by
  cases x with
  | error e => simp [Except.map]
  | ok a => simp [Except.map]

theorem toOption_eq_some : x.toOption = some a ↔ x = .ok a := by
  cases x with
  | error e => exact ⟨nofun, nofun⟩
  | ok a => exact ⟨fun | rfl => rfl, fun | rfl => rfl⟩

theorem mapError_eq_ok {f : ε → ε'} : x.mapError f = .ok a ↔ x = .ok a := by
  cases x with
  | error e => exact ⟨nofun, nofun⟩
  | ok a => exact ⟨fun | rfl => rfl, fun | rfl => rfl⟩

theorem mapError_map {f : ε → ε'} {g : α → β} :
    (x.map g).mapError f = (x.mapError f).map g := by
  cases x with
  | error e => rfl
  | ok a => rfl

end DeclaredSchema
