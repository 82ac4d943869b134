import DeclaredSchema.Literal
import Mathlib.Data.Nat.Digits.Lemmas

/-!
# How literals are written

A literal type that no alias renames is called what it is written like, so it has to be made sure
that nothing that is written is a name with a meaning of its own, such as `Int`. Texts are written
between quotes, and the other literals have no capitals.

## Main results

* `Literal.written_ne_of_isUpper` — no literal is written like a name that starts with a capital
-/

namespace DeclaredSchema

/-- Signs, digits, points and lower-case letters, but no capitals. -/
def HasNoCapital (cs : List Char) : Prop := ∀ c ∈ cs, c.isUpper = false

instance (cs : List Char) : Decidable (HasNoCapital cs) :=
  decidable_of_iff (cs.all fun c => !c.isUpper) (by simp [HasNoCapital])

variable {cs cs' : List Char} {c : Char}

namespace HasNoCapital

theorem append (h : HasNoCapital cs) (h' : HasNoCapital cs') : HasNoCapital (cs ++ cs') :=
  fun c hc => (List.mem_append.mp hc).elim (h c) (h' c)

theorem cons (hc : c.isUpper = false) (h : HasNoCapital cs) : HasNoCapital (c :: cs) :=
  List.forall_mem_cons.mpr ⟨hc, h⟩

theorem nil : HasNoCapital [] := nofun

theorem replicate (hc : c.isUpper = false) (k : Nat) : HasNoCapital (List.replicate k c) :=
  fun _ h => List.eq_of_mem_replicate h ▸ hc

theorem take (h : HasNoCapital cs) (k : Nat) : HasNoCapital (cs.take k) :=
  fun _ hc => h _ (List.mem_of_mem_take hc)

theorem drop (h : HasNoCapital cs) (k : Nat) : HasNoCapital (cs.drop k) :=
  fun _ hc => h _ (List.mem_of_mem_drop hc)

/-- The digits of a number. -/
theorem toDigits (n : Nat) : HasNoCapital (Nat.toDigits 10 n) := by
  intro c hc
  have hdigit : c.isDigit = true := Nat.isDigit_of_mem_toDigits (by decide) (by decide) hc
  simp only [Char.isDigit, Bool.and_eq_true, decide_eq_true_eq] at hdigit
  rw [Bool.eq_false_iff]
  intro hupper
  have hrange : 'A'.val ≤ c.val ∧ c.val ≤ 'Z'.val := of_decide_eq_true hupper
  exact absurd (UInt32.le_trans hrange.1 hdigit.2) (by decide)

end HasNoCapital

open HasNoCapital

namespace Binary64

theorem hasNoCapital_positional {k : Int} (h : HasNoCapital cs) :
    HasNoCapital (positional cs k) := by
  rw [positional]
  split
  · exact (h.append (.replicate rfl _)).append (by decide)
  · have hpadded := (HasNoCapital.replicate (c := '0') rfl ((-k).toNat + 1 - cs.length)).append h
    exact (hpadded.take _).append ((hpadded.drop _).cons rfl)

theorem hasNoCapital_scientific {k : Int} (h : HasNoCapital cs) :
    HasNoCapital (scientific cs k) := by
  rw [scientific]
  refine ((h.take 1).append ?_).append (.cons rfl (.cons ?_ ?_))
  · split
    · exact .nil
    · exact (h.drop 1).cons rfl
  · split <;> rfl
  · exact (HasNoCapital.replicate rfl _).append (.toDigits _)

theorem hasNoCapital_text (x : Binary64) : HasNoCapital x.text.toList := by
  cases x with
  | infinite s => cases s <;> decide
  | notANumber => decide
  | finite s m q =>
    rw [text, String.toList_ofList]
    refine .append ?_ ?_
    · split
      · exact .cons rfl .nil
      · exact .nil
    · split
      · decide
      · rw [magnitudeText]
        dsimp only
        split
        · exact hasNoCapital_positional (.toDigits _)
        · exact hasNoCapital_scientific (.toDigits _)

end Binary64

theorem hasNoCapital_int (i : Int) : HasNoCapital (toString i).toList := by
  rw [Int.toString_eq_repr, Int.repr_eq_if]
  split
  · rw [Nat.toList_repr]
    exact .toDigits _
  · rw [String.toList_append, Nat.toList_repr]
    exact .append (.cons rfl .nil) (.toDigits _)

/-- **What is written** is no name that starts with a capital. -/
theorem Literal.written_ne_of_isUpper (v : Literal) {name : String} (hname : name.toList = c :: cs)
    (hc : c.isUpper = true) : v.written ≠ name := by
  rintro rfl
  have habsurd : ∀ {cs' : List Char}, HasNoCapital cs' → cs' ≠ c :: cs := by
    rintro _ h rfl
    rw [h c (List.mem_cons_self ..)] at hc
    cases hc
  cases v with
  | str text =>
    rw [written, String.append_assoc, String.toList_append] at hname
    obtain ⟨rfl, -⟩ := List.cons.inj hname
    cases hc
  | int i => exact habsurd (hasNoCapital_int i) hname
  | float x => exact habsurd x.hasNoCapital_text hname
  | bool b => cases b <;> exact habsurd (by decide) hname

end DeclaredSchema
