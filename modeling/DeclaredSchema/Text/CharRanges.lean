/-!
# Character classes as ranges of code points

A character class is an ascending list of disjoint code point ranges, both ends included. Membership
walks the list and stops at the first range that starts beyond the character, so the letters of
ASCII are decided by the first few ranges whatever the size of the table.

## Main definitions

* `CharRanges.contains` — membership of a character
* `CharRanges.offset?` — how far a character lies into the range that holds it
-/

namespace DeclaredSchema.Text

/-- Ascending, disjoint ranges of code points, both ends included. -/
abbrev CharRanges := List (Nat × Nat)

namespace CharRanges

/-- The distance of `n` from the start of the range that holds it. -/
def offset? : CharRanges → Nat → Option Nat
  | [], _ => none
  | (lo, hi) :: rest, n =>
    if n < lo then none else if n ≤ hi then some (n - lo) else offset? rest n

/-- Whether the code point of `c` lies in one of the ranges. -/
def contains (ranges : CharRanges) (c : Char) : Bool := (ranges.offset? c.toNat).isSome

theorem offset?_cons_of_lt {lo hi n : Nat} {rest : CharRanges} (h : n < lo) :
    offset? ((lo, hi) :: rest) n = none := by
  simp [offset?, h]

theorem offset?_cons_of_mem {lo hi n : Nat} {rest : CharRanges} (hlo : lo ≤ n) (hhi : n ≤ hi) :
    offset? ((lo, hi) :: rest) n = some (n - lo) := by
  simp [offset?, Nat.not_lt.2 hlo, hhi]

theorem offset?_cons_of_gt {lo hi n : Nat} {rest : CharRanges} (hlo : lo ≤ n) (hhi : hi < n) :
    offset? ((lo, hi) :: rest) n = offset? rest n := by
  simp [offset?, Nat.not_lt.2 hlo, Nat.not_le.2 hhi]

end CharRanges

end DeclaredSchema.Text
