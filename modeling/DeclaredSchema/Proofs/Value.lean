import DeclaredSchema.Proofs.Number.Decimal
import DeclaredSchema.Scalar.Fault

/-!
# Values that cannot be shown

A scalar shows the value that it refuses, and this can fail: an integer is written in decimal, where
the number of digits has a limit. A value can be shown unless it holds an integer beyond the limit,
itself or at any depth of its lists and objects. Only then is the fault not the scalar's own.

## Main definitions

* `Value.HoldsLongInteger` — there is an integer beyond the limit in a value

## Main results

* `Value.display_eq_none_iff` — which values cannot be shown
* `Value.refuse_of_not_holdsLongInteger`, `Value.refuse_of_holdsLongInteger` — what a refusal ends
  with
* `Value.exists_isReported_iff_of_refuse` — when a refusal is reported
-/

namespace DeclaredSchema

namespace Value

/-- There is an integer in the value with more digits than can be written. -/
inductive HoldsLongInteger : Value → Prop
  | int {i : Int} (hlong : 10 ^ digitLimit ≤ i.natAbs) : HoldsLongInteger (int i)
  | item {items : List Value} {v : Value} (hmem : v ∈ items) (hitem : HoldsLongInteger v) :
      HoldsLongInteger (list items)
  | entry {fields : List (String × Value)} {field : String × Value} (hmem : field ∈ fields)
      (hentry : HoldsLongInteger field.2) : HoldsLongInteger (object fields)

variable {v : Value} {items : List Value} {fields : List (String × Value)} {α : Type}
  {fault : String → ValueFault}

theorem not_holdsLongInteger_str (text : String) : ¬HoldsLongInteger (str text) := nofun

theorem holdsLongInteger_list_iff :
    HoldsLongInteger (list items) ↔ ∃ v ∈ items, HoldsLongInteger v := by
  constructor
  · rintro ⟨⟩
    exact ⟨_, ‹_›, ‹_›⟩
  · rintro ⟨v, hmem, hitem⟩
    exact .item hmem hitem

theorem holdsLongInteger_object_iff :
    HoldsLongInteger (object fields) ↔ ∃ field ∈ fields, HoldsLongInteger field.2 := by
  constructor
  · rintro ⟨⟩
    exact ⟨_, ‹_›, ‹_›⟩
  · rintro ⟨field, hmem, hentry⟩
    exact .entry hmem hentry

mutual

/-- **A value cannot be shown** exactly if it holds an integer beyond the limit. -/
theorem display_eq_none_iff : ∀ v : Value, v.display = none ↔ HoldsLongInteger v
  | null | bool _ | float _ | str _ | dateTime _ _ => ⟨nofun, nofun⟩
  | int i => by
    rw [display, writeInteger?_eq_none_iff]
    exact ⟨.int, fun | .int hlong => hlong⟩
  | list items => by
    rw [display, Option.map_eq_none_iff, displayItems_eq_none_iff items, holdsLongInteger_list_iff]
  | object fields => by
    rw [display, Option.map_eq_none_iff, displayFields_eq_none_iff fields,
      holdsLongInteger_object_iff]

theorem displayItems_eq_none_iff :
    ∀ items : List Value, displayItems items = none ↔ ∃ v ∈ items, HoldsLongInteger v
  | [] => by simp [displayItems]
  | v :: rest => by
    have hv := display_eq_none_iff v
    have hrest := displayItems_eq_none_iff rest
    simp only [List.mem_cons, exists_eq_or_imp]
    rw [← hv, ← hrest, displayItems]
    cases v.display <;> cases displayItems rest <;> simp

theorem displayFields_eq_none_iff : ∀ fields : List (String × Value),
    displayFields fields = none ↔ ∃ field ∈ fields, HoldsLongInteger field.2
  | [] => by simp [displayFields]
  | (key, v) :: rest => by
    have hv := display_eq_none_iff v
    have hrest := displayFields_eq_none_iff rest
    simp only [List.mem_cons, exists_eq_or_imp]
    rw [← hv, ← hrest, displayFields]
    cases v.display <;> cases displayFields rest <;> simp

end

/-! ### Refusals -/

/-- **A value that can be shown** is refused with the fault of the scalar. -/
theorem refuse_of_not_holdsLongInteger (h : ¬HoldsLongInteger v) :
    ∃ shown, v.display = some shown ∧ (v.refuse fault : Except ValueFault α) =
      .error (fault shown) := by
  obtain ⟨shown, hshown⟩ := Option.ne_none_iff_exists'.mp (mt (display_eq_none_iff v).mp h)
  exact ⟨shown, hshown, by rw [refuse, hshown]⟩

theorem refuse_of_holdsLongInteger (h : HoldsLongInteger v) :
    (v.refuse fault : Except ValueFault α) = .error .longInteger := by
  rw [refuse, (display_eq_none_iff v).mpr h]

/-- **A refusal is reported** if the fault is, unless the value cannot be shown. -/
theorem exists_isReported_iff_of_refuse (hfault : ∀ shown, (fault shown).isReported = true) :
    ∃ e, (v.refuse fault : Except ValueFault α) = .error e ∧
      (e.isReported = true ↔ ¬HoldsLongInteger v) := by
  by_cases hlong : HoldsLongInteger v
  · exact ⟨_, refuse_of_holdsLongInteger hlong, iff_of_false Bool.false_ne_true (· hlong)⟩
  · obtain ⟨shown, -, hrefuse⟩ := refuse_of_not_holdsLongInteger hlong
    exact ⟨_, hrefuse, iff_of_true (hfault shown) hlong⟩

end Value

end DeclaredSchema
