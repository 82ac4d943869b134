import DeclaredSchema.Proofs.Calendar
import DeclaredSchema.Proofs.Number.Decimal
import DeclaredSchema.Scalar.Date
import Mathlib.Data.List.Induction
import Mathlib.Data.String.Basic

/-!
# Timestamps

A timestamp is made of seven numbers of a fixed width with marks between them. Numbers of one width
have the order of their digits, so timestamps have the order of the moments that they show. A text
that has the form of a timestamp is cut at the same places into the digits that are read.

## Main definitions

* `IsRun` — so many characters of one class
* `Parts` — the digits of a timestamp, with the text that they make up and the moment that they name
* `DateTime.floored` — a moment without what is below a millisecond

## Main results

* `hasTimestampForm_iff`, `Parts.readTimestamp?_text` — a text is checked and read part by part
* `Parts.parts_moment`, `DateTime.moment_parts` — parts of moments, and moments of parts
* `DateTime.timestamp_lt_iff` — timestamps have the order of the moments that they show
-/

namespace DeclaredSchema

open Text

/-! ### Numbers of a fixed width -/

section Padded

variable {width m n : Nat} {digits s t : List Char} {c : Char}

theorem length_padded (hwidth : 0 < width) (h : n < 10 ^ width) :
    (padded width n).length = width := by
  rw [padded, List.length_leftpad,
    Nat.max_eq_left ((Nat.length_toDigits_le_iff (by decide) hwidth).mpr h)]

theorem isDigit_of_mem_padded (h : c ∈ padded width n) : c.isDigit = true := by
  rcases List.mem_append.mp h with hzero | hdigit
  · rw [List.eq_of_mem_replicate hzero]
    rfl
  · exact Nat.isDigit_of_mem_toDigits (by decide) (by decide) hdigit

/-- Zeros in front do not change a number. -/
theorem ofDigitChars_padded (width n : Nat) : Nat.ofDigitChars 10 (padded width n) 0 = n := by
  rw [padded, List.leftpad, Nat.ofDigitChars_append, Nat.ofDigitChars_replicate_zero,
    Nat.mul_zero, Nat.ofDigitChars_ten_toDigits]

theorem padded_one (h : n < 10) : padded 1 n = [n.digitChar] := by
  rw [padded, Nat.toDigits_of_lt_base h]
  rfl

/-- The last digit of a number is behind those of its tenth part. -/
theorem padded_succ (hwidth : 0 < width) (n : Nat) :
    padded (width + 1) n = padded width (n / 10) ++ [(n % 10).digitChar] := by
  by_cases hn : n < 10
  · obtain ⟨less, rfl⟩ := Nat.exists_eq_add_of_le' hwidth
    rw [padded, padded, Nat.toDigits_of_lt_base hn, Nat.div_eq_of_lt hn, Nat.mod_eq_of_lt hn,
      Nat.toDigits_zero, List.leftpad, List.leftpad]
    simp [List.replicate_succ']
  · rw [padded, padded, Nat.toDigits_of_base_le (by decide) (Nat.le_of_not_lt hn), List.leftpad,
      List.leftpad, List.length_append, List.length_singleton, Nat.add_sub_add_right,
      List.append_assoc]

theorem digitChar_lt_iff (hm : m < 10) (hn : n < 10) : m.digitChar < n.digitChar ↔ m < n := by
  change m.digitChar.toNat < n.digitChar.toNat ↔ m < n
  rw [Nat.toNat_digitChar_of_lt_ten hm, Nat.toNat_digitChar_of_lt_ten hn, Nat.add_lt_add_iff_left]

theorem digitChar_inj (hm : m < 10) (hn : n < 10) : m.digitChar = n.digitChar ↔ m = n := by
  rw [← Char.toNat_inj, Nat.toNat_digitChar_of_lt_ten hm, Nat.toNat_digitChar_of_lt_ten hn,
    Nat.add_left_cancel_iff]

/-- **Numbers of one width** have the order of their digits. -/
theorem padded_append_lt_iff (hwidth : 0 < width) (hm : m < 10 ^ width) (hn : n < 10 ^ width) :
    padded width m ++ s < padded width n ++ t ↔ m < n ∨ m = n ∧ s < t := by
  -- The induction takes the last digits off, which go in front of what follows the numbers.
  induction hwidth generalizing m n s t with
  | refl =>
    rw [padded_one hm, padded_one hn, List.singleton_append, List.singleton_append,
      List.cons_lt_cons_iff, digitChar_lt_iff hm hn, digitChar_inj hm hn]
  | @step width hwidth ih =>
    have hmod (k : Nat) : k % 10 < 10 := Nat.mod_lt _ (by decide)
    rw [padded_succ hwidth, padded_succ hwidth, List.append_assoc, List.append_assoc,
      ih (m := m / 10) (n := n / 10) (by omega) (by omega), List.singleton_append,
      List.singleton_append, List.cons_lt_cons_iff, digitChar_lt_iff (hmod m) (hmod n),
      digitChar_inj (hmod m) (hmod n)]
    by_cases hst : s < t
    · simp only [hst, and_true]
      omega
    · simp only [hst, and_false, or_false]
      omega

theorem exists_digitChar (h : c.isDigit = true) : ∃ v < 10, c = v.digitChar := by
  have hrange : 48 ≤ c.toNat ∧ c.toNat ≤ 57 := by
    simpa [Char.isDigit, UInt32.le_iff_toNat_le] using h
  have hlt : c.toNat - 48 < 10 := by omega
  refine ⟨c.toNat - 48, hlt, Char.toNat_inj.mp ?_⟩
  rw [Nat.toNat_digitChar_of_lt_ten hlt]
  omega

/-- Digits are what the number that they stand for is padded to. -/
theorem padded_ofDigitChars (hne : digits ≠ []) (hdigits : ∀ c ∈ digits, c.isDigit = true) :
    padded digits.length (Nat.ofDigitChars 10 digits 0) = digits := by
  induction digits using List.reverseRecOn with
  | nil => exact absurd rfl hne
  | append_singleton digits c ih =>
    obtain ⟨hfront, hc⟩ := List.forall_mem_append.mp hdigits
    obtain ⟨v, hv, rfl⟩ := exists_digitChar (hc c (List.mem_singleton_self c))
    rw [Nat.ofDigitChars_append, Nat.ofDigitChars_cons_digitChar_of_lt_ten hv,
      Nat.ofDigitChars_nil, List.length_append, List.length_singleton]
    by_cases hnil : digits = []
    · subst hnil
      rw [Nat.ofDigitChars_nil, Nat.mul_zero, Nat.zero_add]
      exact padded_one hv
    · rw [padded_succ (List.length_pos_iff.mpr hnil), Nat.mul_add_div (by decide),
        Nat.div_eq_of_lt hv, Nat.add_zero, Nat.mul_add_mod, Nat.mod_eq_of_lt hv, ih hnil hfront]

end Padded

/-! ### Digits of any script -/

section Digits

variable {digits : List Char} {c : Char}

theorem exists_plainDigit (h : isDecimal c = true) :
    ∃ v < 10, decimalValue? c = some v ∧ plainDigit c = v.digitChar := by
  have hchar : ∀ v < 10, Char.ofNat (48 + v) = v.digitChar := by decide
  rw [isDecimal_eq_isSome, Option.isSome_iff_exists] at h
  obtain ⟨v, hv⟩ := h
  have hlt := decimalValue?_lt hv
  refine ⟨v, hlt, hv, ?_⟩
  rw [plainDigit, hv, ← hchar v hlt]

theorem isDigit_plainDigit (h : isDecimal c = true) : (plainDigit c).isDigit = true := by
  obtain ⟨v, hv, -, hplain⟩ := exists_plainDigit h
  rw [hplain, Nat.isDigit_digitChar, decide_eq_true hv]

theorem plainDigit_of_isDigit (h : c.isDigit = true) : plainDigit c = c := by
  obtain ⟨v, hv, rfl⟩ := exists_digitChar h
  obtain ⟨w, hw, hvalue, hplain⟩ := exists_plainDigit (isDecimal_of_isDigit h)
  rw [decimalValue?_of_isDigit h] at hvalue
  rw [hplain, ← Option.some.inj hvalue]
  change (v.digitChar.toNat - 48).digitChar = _
  rw [Nat.toNat_digitChar_sub_48_of_lt_ten hv]

/-- The value of digits is that of the same digits in ASCII. -/
theorem digitsValue_eq (h : ∀ c ∈ digits, isDecimal c = true) :
    digitsValue digits = Nat.ofDigitChars 10 (digits.map plainDigit) 0 := by
  rw [← ofDigits_eq_ofDigitChars, List.map_map, digitsValue]
  refine congrArg ofDigits (List.map_congr_left fun c hc => ?_)
  obtain ⟨v, hv, hvalue, hplain⟩ := exists_plainDigit (h c hc)
  rw [hvalue, Function.comp_apply, hplain]
  exact (Nat.toNat_digitChar_sub_48_of_lt_ten hv).symm

/-- The first decimal digits are those of ASCII, and the next are far behind them. -/
theorem isDigit_of_isDecimal_of_lt (h : isDecimal c = true) (hascii : c.toNat < 128) :
    c.isDigit = true := by
  rw [isDecimal, decimalDigits, CharRanges.contains] at h
  have hlo : 48 ≤ c.toNat := by
    refine Nat.le_of_not_lt fun hlt => ?_
    rw [CharRanges.offset?_cons_of_lt hlt] at h
    cases h
  have hhi : c.toNat ≤ 57 := by
    refine Nat.le_of_not_lt fun hlt => ?_
    rw [CharRanges.offset?_cons_of_gt hlo hlt, CharRanges.offset?_cons_of_lt (by omega)] at h
    cases h
  simpa [Char.isDigit, UInt32.le_iff_toNat_le] using ⟨hlo, hhi⟩

theorem map_plainDigit (h : ∀ c ∈ digits, c.isDigit = true) : digits.map plainDigit = digits :=
  (List.map_congr_left fun c hc => plainDigit_of_isDigit (h c hc)).trans (List.map_id' digits)

theorem digitsValue_padded (width n : Nat) : digitsValue (padded width n) = n := by
  have hdigits : ∀ c ∈ padded width n, c.isDigit = true := fun _ => isDigit_of_mem_padded
  rw [digitsValue_eq fun c hc => isDecimal_of_isDigit (hdigits c hc), map_plainDigit hdigits,
    ofDigitChars_padded]

theorem isAsciiDigit_of_isDigit (h : c.isDigit = true) : isAsciiDigit 0 9 c = true := by
  simpa [isAsciiDigit, Char.isDigit, UInt32.le_iff_toNat_le] using h

end Digits

/-! ### Runs of digits -/

/-- So many characters, all of one class. -/
def IsRun (ok : Char → Bool) (width : Nat) (digits : List Char) : Prop :=
  digits.length = width ∧ ∀ c ∈ digits, ok c = true

section IsRun

variable {ok ok' : Char → Bool} {width n : Nat} {digits : List Char}

theorem isRun_padded (hwidth : 0 < width) (h : n < 10 ^ width) :
    IsRun Char.isDigit width (padded width n) :=
  ⟨length_padded hwidth h, fun _ => isDigit_of_mem_padded⟩

theorem IsRun.mono (h : IsRun ok width digits)
    (himp : ∀ c ∈ digits, ok c = true → ok' c = true) : IsRun ok' width digits :=
  ⟨h.1, fun c hc => himp c hc (h.2 c hc)⟩

/-- Digits of any script are digits of ASCII when they are written so. -/
theorem IsRun.plain (h : IsRun isDecimal width digits) :
    IsRun Char.isDigit width (digits.map plainDigit) := by
  refine ⟨by rw [List.length_map, h.1], fun c hplain => ?_⟩
  obtain ⟨c, hc, rfl⟩ := List.mem_map.mp hplain
  exact isDigit_plainDigit (h.2 c hc)

/-- Digits are written again, in ASCII, from their value and their number. -/
theorem IsRun.padded_digitsValue (hwidth : 0 < width) (h : IsRun isDecimal width digits) :
    padded width (digitsValue digits) = digits.map plainDigit := by
  obtain ⟨hlength, hdigits⟩ := h.plain
  have hne : digits.map plainDigit ≠ [] := List.length_pos_iff.mp (hlength ▸ hwidth)
  rw [digitsValue_eq h.2]
  exact (congrArg (padded · _) hlength.symm).trans (padded_ofDigitChars hne hdigits)

theorem IsRun.digitsValue_lt (hwidth : 0 < width) (h : IsRun isDecimal width digits) :
    digitsValue digits < 10 ^ width := by
  have hlength := congrArg List.length (h.padded_digitsValue hwidth)
  rw [padded, List.length_leftpad, List.length_map, h.1] at hlength
  exact (Nat.length_toDigits_le_iff (by decide) hwidth).mp (by omega)

end IsRun

/-! ### The parts of a timestamp -/

/-- The digits of a timestamp. -/
structure Parts where
  year : List Char
  month : List Char
  day : List Char
  hour : List Char
  minute : List Char
  second : List Char
  fraction : List Char

/-- What the digits of a moment are in its timestamp. -/
def DateTime.parts (d : DateTime) : Parts :=
  ⟨padded 4 d.year, padded 2 d.month, padded 2 d.day, padded 2 d.hour, padded 2 d.minute,
    padded 2 d.second, padded 3 (d.microsecond / 1000)⟩

namespace Parts

/-- The digits, with the marks between them. -/
def text (p : Parts) : List Char :=
  p.year ++ '-' :: (p.month ++ '-' :: (p.day ++
    'T' :: (p.hour ++ ':' :: (p.minute ++ ':' :: (p.second ++ '.' :: (p.fraction ++ ['Z']))))))

/-- The digits have the widths of a timestamp, and are of the class `ok`. -/
structure Fits (p : Parts) (ok : Char → Bool) : Prop where
  year : IsRun ok 4 p.year
  month : IsRun ok 2 p.month
  day : IsRun ok 2 p.day
  hour : IsRun ok 2 p.hour
  minute : IsRun ok 2 p.minute
  second : IsRun ok 2 p.second
  fraction : IsRun ok 3 p.fraction

/-- The moment that the digits name. -/
def moment (p : Parts) : DateTime :=
  ⟨digitsValue p.year, digitsValue p.month, digitsValue p.day, digitsValue p.hour,
    digitsValue p.minute, digitsValue p.second, digitsValue p.fraction * 1000⟩

/-- The same digits in ASCII. -/
def plain (p : Parts) : Parts :=
  ⟨p.year.map plainDigit, p.month.map plainDigit, p.day.map plainDigit, p.hour.map plainDigit,
    p.minute.map plainDigit, p.second.map plainDigit, p.fraction.map plainDigit⟩

/-- Whether the digits may be read, whatever moment they name. -/
def areReadable (p : Parts) : Bool :=
  isMonthField p.month && isDayField p.day && isHourField p.hour && isSixtiethField p.minute &&
    isSixtiethField p.second && p.fraction.all (isAsciiDigit 0 9)

end Parts

/-! ### The form -/

section Form

variable {form text : List Char} {mark : Char}

theorem hasForm_digits (n : Nat) :
    hasForm (List.replicate n '0' ++ form) text = true ↔
      ∃ digits rest, IsRun isDecimal n digits ∧ text = digits ++ rest ∧
        hasForm form rest = true := by
  induction n generalizing text with
  | zero =>
    constructor
    · exact fun h => ⟨[], text, ⟨rfl, nofun⟩, rfl, h⟩
    · rintro ⟨digits, rest, ⟨hlength, -⟩, rfl, h⟩
      rwa [List.length_eq_zero_iff.mp hlength]
  | succ n ih =>
    rw [List.replicate_succ, List.cons_append]
    cases text with
    | nil =>
      refine iff_of_false Bool.false_ne_true ?_
      rintro ⟨digits, rest, ⟨hlength, -⟩, heq, -⟩
      rw [(List.append_eq_nil_iff.mp heq.symm).1] at hlength
      cases hlength
    | cons c text =>
      rw [hasForm, if_pos rfl, Bool.and_eq_true, ih]
      constructor
      · rintro ⟨hc, digits, rest, ⟨hlength, hdigits⟩, rfl, h⟩
        exact ⟨c :: digits, rest,
          ⟨congrArg (· + 1) hlength, List.forall_mem_cons.mpr ⟨hc, hdigits⟩⟩, rfl, h⟩
      · rintro ⟨_ | ⟨c', digits⟩, rest, ⟨hlength, hdigits⟩, heq, h⟩
        · cases hlength
        · obtain ⟨rfl, rfl⟩ := List.cons.inj heq
          obtain ⟨hc, hdigits⟩ := List.forall_mem_cons.mp hdigits
          exact ⟨hc, digits, rest, ⟨Nat.succ.inj hlength, hdigits⟩, rfl, h⟩

theorem hasForm_mark (h : mark ≠ '0') :
    hasForm (mark :: form) text = true ↔
      ∃ rest, text = mark :: rest ∧ hasForm form rest = true := by
  cases text with
  | nil => simp [hasForm]
  | cons c text => simp [hasForm, h]

theorem timestampForm_eq :
    timestampForm = List.replicate 4 '0' ++ '-' :: (List.replicate 2 '0' ++
      '-' :: (List.replicate 2 '0' ++ 'T' :: (List.replicate 2 '0' ++
        ':' :: (List.replicate 2 '0' ++ ':' :: (List.replicate 2 '0' ++
          '.' :: (List.replicate 3 '0' ++ ['Z'])))))) := by
  decide

/-- **A text of the form** is made of parts that fit. -/
theorem hasTimestampForm_iff :
    hasTimestampForm text = true ↔ ∃ p : Parts, p.Fits isDecimal ∧ text = p.text := by
  have hend {rest : List Char} : hasForm [] rest = true ↔ rest = [] := by
    cases rest <;> simp [hasForm]
  rw [hasTimestampForm, timestampForm_eq]
  simp only [hasForm_digits, hasForm_mark (show '-' ≠ '0' by decide),
    hasForm_mark (show 'T' ≠ '0' by decide), hasForm_mark (show ':' ≠ '0' by decide),
    hasForm_mark (show '.' ≠ '0' by decide), hasForm_mark (show 'Z' ≠ '0' by decide), hend]
  constructor
  · rintro ⟨year, _, hyear, rfl, _, rfl, month, _, hmonth, rfl, _, rfl, day, _, hday, rfl, _, rfl,
      hour, _, hhour, rfl, _, rfl, minute, _, hminute, rfl, _, rfl, second, _, hsecond, rfl, _, rfl,
      fraction, _, hfraction, rfl, _, rfl, rfl⟩
    exact ⟨⟨year, month, day, hour, minute, second, fraction⟩,
      ⟨hyear, hmonth, hday, hhour, hminute, hsecond, hfraction⟩, rfl⟩
  · rintro ⟨p, h, rfl⟩
    exact ⟨_, _, h.year, rfl, _, rfl, _, _, h.month, rfl, _, rfl, _, _, h.day, rfl, _, rfl, _, _,
      h.hour, rfl, _, rfl, _, _, h.minute, rfl, _, rfl, _, _, h.second, rfl, _, rfl, _, _,
      h.fraction, rfl, _, rfl, rfl⟩

end Form

/-! ### Reading the parts -/

namespace Parts

variable {p : Parts} {ok : Char → Bool}

/-- Each part of a timestamp stands in its place. -/
theorem field_text (h : p.Fits ok) :
    field p.text 0 4 = p.year ∧ field p.text 5 2 = p.month ∧ field p.text 8 2 = p.day ∧
      field p.text 11 2 = p.hour ∧ field p.text 14 2 = p.minute ∧ field p.text 17 2 = p.second ∧
      field p.text 20 3 = p.fraction := by
  simp [field, text, List.drop_append, List.drop_eq_nil_of_le, h.year.1, h.month.1, h.day.1,
    h.hour.1, h.minute.1, h.second.1, h.fraction.1]

/-- **A timestamp is read** part by part. -/
theorem readTimestamp?_text (h : p.Fits ok) :
    readTimestamp? p.text =
      if p.areReadable && decide p.moment.Valid then some p.moment else none := by
  obtain ⟨hyear, hmonth, hday, hhour, hminute, hsecond, hfraction⟩ := field_text h
  simp only [readTimestamp?, hyear, hmonth, hday, hhour, hminute, hsecond, hfraction]
  rfl

theorem length_text (h : p.Fits ok) : p.text.length = timestampLength := by
  simp [text, timestampLength, h.year.1, h.month.1, h.day.1, h.hour.1, h.minute.1, h.second.1,
    h.fraction.1]

/-! ### Parts in ASCII -/

theorem plain_text (p : Parts) : p.plain.text = p.text.map plainDigit := by
  have hmarks : plainDigit '-' = '-' ∧ plainDigit 'T' = 'T' ∧ plainDigit ':' = ':' ∧
      plainDigit '.' = '.' ∧ plainDigit 'Z' = 'Z' := by decide +kernel
  obtain ⟨hdash, htime, hcolon, hpoint, hend⟩ := hmarks
  simp only [text, plain, List.map_append, List.map_cons, List.map_nil, hdash, htime, hcolon,
    hpoint, hend]

theorem Fits.plain (h : p.Fits isDecimal) : p.plain.Fits Char.isDigit :=
  ⟨h.year.plain, h.month.plain, h.day.plain, h.hour.plain, h.minute.plain, h.second.plain,
    h.fraction.plain⟩

theorem Fits.mono {ok' : Char → Bool} (h : p.Fits ok)
    (himp : ∀ c ∈ p.text, ok c = true → ok' c = true) : p.Fits ok' := by
  simp only [text, List.forall_mem_append, List.forall_mem_cons] at himp
  obtain ⟨hyear, -, hmonth, -, hday, -, hhour, -, hminute, -, hsecond, -, hfraction, -⟩ := himp
  exact ⟨h.year.mono hyear, h.month.mono hmonth, h.day.mono hday, h.hour.mono hhour,
    h.minute.mono hminute, h.second.mono hsecond, h.fraction.mono hfraction⟩

theorem Fits.isDecimal (h : p.Fits Char.isDigit) : p.Fits isDecimal :=
  h.mono fun _ _ => isDecimal_of_isDigit

theorem plain_of_fits (h : p.Fits Char.isDigit) : p.plain = p := by
  simp only [Parts.plain, map_plainDigit h.year.2, map_plainDigit h.month.2,
    map_plainDigit h.day.2, map_plainDigit h.hour.2, map_plainDigit h.minute.2,
    map_plainDigit h.second.2, map_plainDigit h.fraction.2]

theorem isAscii_text (h : p.Fits Char.isDigit) : ∀ c ∈ p.text, c.toNat < 128 := by
  have hdigit {c : Char} (hc : c.isDigit = true) : c.toNat < 128 := by
    obtain ⟨v, hv, rfl⟩ := exists_digitChar hc
    rw [Nat.toNat_digitChar_of_lt_ten hv]
    omega
  simp only [text, List.forall_mem_append, List.forall_mem_cons]
  exact ⟨fun c hc => hdigit (h.year.2 c hc), by decide, fun c hc => hdigit (h.month.2 c hc),
    by decide, fun c hc => hdigit (h.day.2 c hc), by decide, fun c hc => hdigit (h.hour.2 c hc),
    by decide, fun c hc => hdigit (h.minute.2 c hc), by decide,
    fun c hc => hdigit (h.second.2 c hc), by decide, fun c hc => hdigit (h.fraction.2 c hc),
    by decide, nofun⟩

/-- **The digits are written again** in ASCII. -/
theorem parts_moment (h : p.Fits isDecimal) : p.moment.parts = p.plain := by
  have hfraction := h.fraction.padded_digitsValue (by decide)
  rw [← Nat.mul_div_cancel (digitsValue p.fraction) (by decide : 0 < 1000)] at hfraction
  simp only [DateTime.parts, moment, Parts.plain, hfraction, h.year.padded_digitsValue (by decide),
    h.month.padded_digitsValue (by decide), h.day.padded_digitsValue (by decide),
    h.hour.padded_digitsValue (by decide), h.minute.padded_digitsValue (by decide),
    h.second.padded_digitsValue (by decide)]

end Parts

/-! ### Moments and their timestamps -/

theorem daysInMonth_le (year month : Nat) : daysInMonth year month ≤ 31 := by
  fun_cases daysInMonth year month <;> decide

namespace DateTime

variable {d e : DateTime}

/-- A moment without what is below a millisecond. -/
def floored (d : DateTime) : DateTime := { d with microsecond := d.microsecond / 1000 * 1000 }

theorem Valid.fits_parts (h : d.Valid) : d.parts.Fits Char.isDigit := by
  obtain ⟨⟨-, hyear⟩, ⟨-, hmonth⟩, ⟨-, hday⟩, hhour, hminute, hsecond, hmicrosecond⟩ := h
  have hmonthDays := daysInMonth_le d.year d.month
  simp only [maxYear] at hyear
  constructor <;> exact isRun_padded (by decide) (by omega)

theorem Valid.length_timestamp (h : d.Valid) : d.timestamp.length = timestampLength :=
  Parts.length_text h.fits_parts

theorem moment_parts (d : DateTime) : d.parts.moment = d.floored := by
  simp only [Parts.moment, parts, digitsValue_padded, floored]

theorem Valid.floored (h : d.Valid) : d.floored.Valid := by
  obtain ⟨hyear, hmonth, hday, hhour, hminute, hsecond, hmicrosecond⟩ := h
  refine ⟨hyear, hmonth, hday, hhour, hminute, hsecond, ?_⟩
  simp only [DateTime.floored]
  omega

theorem instant_floored (d : DateTime) : d.floored.instant = d.instant / 1000 * 1000 := by
  simp only [instant, DateTime.floored, perDay, perSecond]
  omega

/-- What is written may be read. -/
theorem Valid.areReadable_parts (h : d.Valid) : d.parts.areReadable = true := by
  have hmonths : ∀ n ≤ 12, 1 ≤ n → isMonthField (padded 2 n) = true := by decide +kernel
  have hdays : ∀ n ≤ 31, 1 ≤ n → isDayField (padded 2 n) = true := by decide +kernel
  have hhours : ∀ n < 24, isHourField (padded 2 n) = true := by decide +kernel
  have hsixtieths : ∀ n < 60, isSixtiethField (padded 2 n) = true := by decide +kernel
  have hfraction : (padded 3 (d.microsecond / 1000)).all (isAsciiDigit 0 9) = true :=
    List.all_eq_true.mpr fun _ hc => isAsciiDigit_of_isDigit (isDigit_of_mem_padded hc)
  obtain ⟨-, ⟨hmonth, hmonth'⟩, ⟨hday, hday'⟩, hhour, hminute, hsecond, -⟩ := h
  simp only [Parts.areReadable, parts, hmonths _ hmonth' hmonth, hhours _ hhour,
    hdays _ (Nat.le_trans hday' (daysInMonth_le ..)) hday, hsixtieths _ hminute,
    hsixtieths _ hsecond, hfraction, Bool.and_true]

/-- **Timestamps have the order** of the moments that they show. -/
theorem timestamp_lt_iff (hd : d.Valid) (he : e.Valid) :
    d.timestamp < e.timestamp ↔ d.Precedes e := by
  have hmonths := daysInMonth_le d.year d.month
  have hmonths' := daysInMonth_le e.year e.month
  obtain ⟨⟨-, hyear⟩, ⟨-, hmonth⟩, ⟨-, hday⟩, hhour, hminute, hsecond, hmicrosecond⟩ := hd
  obtain ⟨⟨-, hyear'⟩, ⟨-, hmonth'⟩, ⟨-, hday'⟩, hhour', hminute', hsecond', hmicrosecond'⟩ := he
  simp only [maxYear] at hyear hyear'
  simp (disch := omega) only [timestamp, Precedes, padded_append_lt_iff, List.cons_lt_cons_self,
    List.lt_irrefl, and_false, or_false]

end DateTime

end DeclaredSchema
