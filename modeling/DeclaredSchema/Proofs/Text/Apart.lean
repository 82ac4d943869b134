import DeclaredSchema.Text.Numeral
import Mathlib.Tactic.ByContra

/-!
# Characters that are not mixed up

Tables of characters that share none are told from each other by one walk along both, and so letters
are told from digits. Neither is one of the characters that a declaration file is divided by.

## Main definitions

* `areApart` — the walk that finds no common character

## Main results

* `isDigit_eq_false_of_isLetter` — no letter is a digit
* `not_mem_delimiters_of_isDigit`, `not_mem_delimiters_of_isLetter` — a number or a word starts with
  none of the characters that start anything else
-/

namespace DeclaredSchema.Text

variable {c : Char}

/-! ### Tables that are apart -/

/-- The ranges that are left once those that end before a code point are passed over. -/
def ahead (lo : Nat) : CharRanges → CharRanges
  | [] => []
  | r :: more => if r.2 < lo then ahead lo more else r :: more

/-- Whether two classes have no character in common, by one walk along both: the ranges of the second
that end before a range of the first are passed over, and the next one starts behind it. -/
def areApart : CharRanges → CharRanges → Bool
  | [], _ => true
  | (lo, hi) :: more, others =>
    (ahead lo others).head?.all (hi < ·.1) && areApart more (ahead lo others)

theorem offset?_ahead {others : CharRanges} {lo n : Nat} (hlo : lo ≤ n)
    (h : others.offset? n ≠ none) : (ahead lo others).offset? n = others.offset? n := by
  induction others with
  | nil => rfl
  | cons r more ih =>
    have hstart : r.1 ≤ n := Nat.not_lt.mp fun hlt => h (CharRanges.offset?_cons_of_lt hlt)
    rw [ahead]
    split
    · next hpassed =>
      rw [CharRanges.offset?_cons_of_gt hstart (Nat.lt_of_lt_of_le hpassed hlo)] at h ⊢
      exact ih h
    · rfl

theorem offset?_eq_none_of_areApart {ranges others : CharRanges} {n : Nat}
    (hapart : areApart ranges others = true) (h : ranges.offset? n ≠ none) :
    others.offset? n = none := by
  induction ranges generalizing others with
  | nil => exact absurd rfl h
  | cons r more ih =>
    obtain ⟨hhead, hmore⟩ := Bool.and_eq_true_iff.mp hapart
    have hlo : r.1 ≤ n := Nat.not_lt.mp fun hlt => h (CharRanges.offset?_cons_of_lt hlt)
    by_contra hothers
    rw [← offset?_ahead hlo hothers] at hothers
    by_cases hhi : n ≤ r.2
    · cases hahead : ahead r.1 others with
      | nil => exact hothers (by rw [hahead]; rfl)
      | cons b rest =>
        have hb : r.2 < b.1 := by simpa [hahead] using hhead
        rw [hahead] at hothers
        exact hothers (CharRanges.offset?_cons_of_lt (Nat.lt_of_le_of_lt hhi hb))
    · rw [CharRanges.offset?_cons_of_gt hlo (Nat.not_le.mp hhi)] at h
      exact hothers (ih hmore h)

/-- Classes that are apart have no character in common. -/
theorem contains_eq_false_of_areApart {ranges others : CharRanges}
    (hapart : areApart ranges others = true) (h : ranges.contains c = true) :
    others.contains c = false := by
  have hsome : ranges.offset? c.toNat ≠ none := Option.isSome_iff_ne_none.mp h
  rw [CharRanges.contains, offset?_eq_none_of_areApart hapart hsome]
  rfl

/-! ### Letters, digits and delimiters -/

/-- No letter is a digit. -/
theorem isDigit_eq_false_of_isLetter (h : isLetter c = true) : isDigit c = false := by
  rw [isDigit, isDecimal, contains_eq_false_of_areApart (by decide +kernel) h,
    contains_eq_false_of_areApart (by decide +kernel) h, Bool.or_false]

/-- The characters that are blank, or that start a comment, a symbol or a string. -/
def delimiters : List Char :=
  [' ', '\t', '\r', '\n', '\ufeff', '/', '=', '"', '\'', '\x7b', '\x7d', '(', ')', '[', ']', '<',
    '>', ',', ';', ':', '?', '|', '&', '.', '*', '-']

theorem not_mem_delimiters_of_isDigit (h : isDigit c = true) : c ∉ delimiters := by
  have hnone : delimiters.all (!isDigit ·) = true := by decide +kernel
  intro hmem
  simpa [h] using List.all_eq_true.mp hnone c hmem

theorem not_mem_delimiters_of_isLetter (h : isLetter c = true) : c ∉ delimiters := by
  have hnone : delimiters.all (!isLetter ·) = true := by decide +kernel
  intro hmem
  simpa [h] using List.all_eq_true.mp hnone c hmem

end DeclaredSchema.Text
