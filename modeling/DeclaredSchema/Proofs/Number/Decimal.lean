import DeclaredSchema.Number.Reading
import DeclaredSchema.Proofs.Text.Apart
import Mathlib.Algebra.Group.Nat.Defs

/-!
# Integers in decimal

What an integer is written as in base ten is read as that integer, as long as the limit on the
number of digits is kept. Above the limit there is no way to write an integer at all.

## Main results

* `readInteger_toDigits` — what is read when an integer is written in decimal
* `writeInteger?_eq_none_iff` — which integers have no text
-/

namespace DeclaredSchema

open Text

variable {c : Char} {n : Nat} {digits : List Char}

/-- The digits that integers are written with have their values. -/
theorem decimalValue?_of_isDigit (h : c.isDigit = true) :
    decimalValue? c = some (c.toNat - '0'.toNat) := by
  obtain ⟨hlo, hhi⟩ : 0x30 ≤ c.toNat ∧ c.toNat ≤ 0x39 := by
    simpa [Char.isDigit, UInt32.le_iff_toNat_le] using h
  rw [decimalValue?, decimalDigits, CharRanges.offset?_cons_of_mem hlo hhi, Option.map_some,
    Nat.mod_eq_of_lt (by omega)]
  rfl

theorem isDecimal_of_isDigit (h : c.isDigit = true) : isDecimal c = true := by
  rw [isDecimal_eq_isSome, decimalValue?_of_isDigit h]
  rfl

/-- The margins of a number hold none of its digits. -/
theorem isMargin_eq_false_of_isDigit (h : c.isDigit = true) : isMargin c = false := by
  have hblank : isBlank c = false :=
    contains_eq_false_of_areApart (by decide +kernel) (isDecimal_of_isDigit h)
  rw [isMargin, hblank, Bool.false_and]

theorem trimMargins_of_isDigit (h : ∀ c ∈ digits, c.isDigit = true) :
    trimMargins digits = digits := by
  have hkeep : ∀ {cs : List Char}, (∀ c ∈ cs, c.isDigit = true) → cs.dropWhile isMargin = cs := by
    intro cs hcs
    cases cs with
    | nil => rfl
    | cons c cs =>
      have hc := isMargin_eq_false_of_isDigit (hcs c (List.mem_cons_self ..))
      rw [List.dropWhile_cons_of_neg (by simp [hc])]
  rw [trimMargins, hkeep h, hkeep fun c hc => h c (List.mem_reverse.mp hc), List.reverse_reverse]

theorem signOf_of_isDigit (h : ∀ c ∈ digits, c.isDigit = true) :
    signOf digits = (false, digits) := by
  unfold signOf
  split
  · exact absurd (h '-' (List.mem_cons_self ..)) (by decide)
  · exact absurd (h '+' (List.mem_cons_self ..)) (by decide)
  · rfl

/-- A run of digits without underscores has the values of its digits. -/
theorem digitsAfter_of_isDigit (h : ∀ c ∈ digits, c.isDigit = true) :
    digitsAfter digits = some (digits.map fun c => c.toNat - '0'.toNat, []) := by
  induction digits with
  | nil => rfl
  | cons c digits ih =>
    obtain ⟨hc, hdigits⟩ := List.forall_mem_cons.mp h
    have hunderscore : c ≠ '_' := by
      rintro rfl
      exact absurd hc (by decide)
    rw [digitsAfter, decimalValue?_of_isDigit hc, ih hdigits]
    · rfl
    · exact fun _ _ heq => absurd heq hunderscore

theorem digitRun_of_isDigit (h : ∀ c ∈ digits, c.isDigit = true) :
    digitRun digits = some (digits.map fun c => c.toNat - '0'.toNat, []) := by
  cases digits with
  | nil => rfl
  | cons c digits =>
    obtain ⟨hc, hdigits⟩ := List.forall_mem_cons.mp h
    rw [digitRun, decimalValue?_of_isDigit hc, digitsAfter_of_isDigit hdigits]
    rfl

theorem ofDigits_eq_ofDigitChars (digits : List Char) :
    ofDigits (digits.map fun c => c.toNat - '0'.toNat) = Nat.ofDigitChars 10 digits 0 := by
  rw [Nat.ofDigitChars_eq_foldl, ofDigits, List.foldl_map]

theorem digitLimit_lt_length_iff :
    digitLimit < (Nat.toDigits 10 n).length ↔ 10 ^ digitLimit ≤ n := by
  rw [← Nat.not_le, Nat.length_toDigits_le_iff (by decide) (by decide), Nat.not_lt]

/-- **Integers in decimal are read back**, up to the limit. -/
theorem readInteger_toDigits (n : Nat) :
    readInteger (CodeText.ofString (String.ofList (Nat.toDigits 10 n))) =
      if n < 10 ^ digitLimit then .ok n
      else .error (.tooManyDigits (Nat.toDigits 10 n).length) := by
  have hdigits : ∀ c ∈ Nat.toDigits 10 n, c.isDigit = true := fun c hc =>
    Nat.isDigit_of_mem_toDigits (by decide) (by decide) hc
  have hlimit : digitLimit < (Nat.toDigits 10 n).length ↔ ¬n < 10 ^ digitLimit := by
    rw [digitLimit_lt_length_iff, Nat.not_lt]
  have hrun := digitRun_of_isDigit hdigits
  have hvalue := ofDigits_eq_ofDigitChars (Nat.toDigits 10 n)
  rw [Nat.ofDigitChars_ten_toDigits] at hvalue
  obtain ⟨v, vs, hvalues⟩ : ∃ v vs, (Nat.toDigits 10 n).map (fun c => c.toNat - '0'.toNat) =
      v :: vs := List.exists_cons_of_ne_nil (by simp [Nat.toDigits_ne_nil])
  have hlength : (v :: vs).length = (Nat.toDigits 10 n).length := by
    rw [← hvalues, List.length_map]
  rw [hvalues] at hrun hvalue
  rw [readInteger, CodeText.shadow_ofString, String.toList_ofList, trimMargins_of_isDigit hdigits,
    signOf_of_isDigit hdigits]
  simp only [hrun, hvalue, hlength, hlimit, List.isEmpty_nil, if_true, if_neg Bool.false_ne_true]
  rw [ite_not]

/-- **An integer has no text** exactly if it has more digits than the limit. -/
theorem writeInteger?_eq_none_iff {i : Int} :
    writeInteger? i = none ↔ 10 ^ digitLimit ≤ i.natAbs := by
  rw [writeInteger?, ← digitLimit_lt_length_iff]
  split
  · next hlong => exact iff_of_true rfl hlong
  · next hshort => exact iff_of_false nofun hshort

end DeclaredSchema
