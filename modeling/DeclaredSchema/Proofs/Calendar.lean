import DeclaredSchema.Calendar

/-!
# Days and instants in order

The days of the calendar follow each other without gaps, in the order of year, month and day, and
their numbers are read back as the same dates. So a date and time is the same as its instant: no two
have one instant, and each instant before the end of the year 9999 has one. A clock that shows UTC
can therefore show an instant exactly if it lies in the years 1 to 9999.

## Main definitions

* `IsDate` — a day that exists
* `DateTime.Precedes` — the order of dates and times, field by field down to milliseconds

## Main results

* `dayNumber_lt_iff` — days are numbered in the order of their dates
* `dayNumber_ofDayNumber` — the date of a number has that number
* `DateTime.instant_ofInstant`, `DateTime.eq_of_instant_eq` — dates and times are instants
* `DateTime.precedes_iff` — the order of the fields is the order of instants
* `DateTime.toUtc?_eq_some_iff` — what a clock that shows UTC shows
-/

namespace DeclaredSchema

variable {year year' month month' day day' n t : Nat} {offset : Int}

/-- Blocks that follow each other are ordered by their number, and inside by what is added. -/
theorem block_lt_iff {start size : Nat → Nat} {a b x y : Nat}
    (hab : a < b → start a + size a ≤ start b) (hba : b < a → start b + size b ≤ start a)
    (hx : x < size a) (hy : y < size b) :
    start a + x < start b + y ↔ a < b ∨ a = b ∧ x < y := by
  rcases Nat.lt_trichotomy a b with h | rfl | h
  · have := hab h
    omega
  · omega
  · have := hba h
    omega

/-! ### Years -/

theorem isLeapYear_iff :
    isLeapYear year = true ↔ year % 4 = 0 ∧ (year % 100 ≠ 0 ∨ year % 400 = 0) := by
  simp [isLeapYear]

def daysInYear (year : Nat) : Nat := if isLeapYear year then 366 else 365

/-- The days before the year that follows `past` years. -/
theorem daysBeforeYear_past (past : Nat) :
    daysBeforeYear (past + 1) = past * 365 + past / 4 - past / 100 + past / 400 := rfl

theorem daysBeforeYear_succ (h : 1 ≤ year) :
    daysBeforeYear (year + 1) = daysBeforeYear year + daysInYear year := by
  obtain ⟨past, rfl⟩ := Nat.exists_eq_add_of_le' h
  rw [daysBeforeYear_past, daysBeforeYear_past, daysInYear, Nat.succ_div, Nat.succ_div,
    Nat.succ_div]
  simp only [isLeapYear_iff, Nat.dvd_iff_mod_eq_zero]
  grind

theorem daysBeforeYear_add_le (h : 1 ≤ year) (hlt : year < year') :
    daysBeforeYear year + daysInYear year ≤ daysBeforeYear year' := by
  induction hlt with
  | refl => exact Nat.le_of_eq (daysBeforeYear_succ h).symm
  | @step year' hlt ih =>
    rw [daysBeforeYear_succ (Nat.le_trans h (Nat.le_of_lt hlt))]
    omega

theorem daysBeforeYear_mono (h : 1 ≤ year) (hle : year ≤ year') :
    daysBeforeYear year ≤ daysBeforeYear year' := by
  rcases Nat.lt_or_eq_of_le hle with hlt | rfl
  · exact Nat.le_of_add_right_le (daysBeforeYear_add_le h hlt)
  · exact Nat.le_refl _

/-! ### Months -/

theorem daysBeforeMonth_succ (year : Nat) (h : 1 ≤ month) :
    daysBeforeMonth year (month + 1) = daysBeforeMonth year month + daysInMonth year month := by
  cases month with
  | zero => omega
  | succ month => rfl

theorem daysBeforeMonth_add_le (year : Nat) (h : 1 ≤ month) (hlt : month < month') :
    daysBeforeMonth year month + daysInMonth year month ≤ daysBeforeMonth year month' := by
  induction hlt with
  | refl => exact Nat.le_of_eq (daysBeforeMonth_succ year h).symm
  | @step month' hlt ih =>
    rw [daysBeforeMonth_succ year (Nat.le_trans h (Nat.le_of_lt hlt))]
    omega

/-- The twelve months make up the year. -/
theorem daysBeforeMonth_thirteen : daysBeforeMonth year 13 = daysInYear year := by
  simp only [daysBeforeMonth, daysInMonth, daysInYear]
  split <;> rfl

/-! ### Days -/

/-- A day that exists. -/
structure IsDate (year month day : Nat) : Prop where
  year_pos : 1 ≤ year
  month_pos : 1 ≤ month
  month_le : month ≤ 12
  day_pos : 1 ≤ day
  day_le : day ≤ daysInMonth year month

namespace IsDate

theorem day_lt (h : IsDate year month day) : day - 1 < daysInMonth year month := by
  have := h.day_pos
  have := h.day_le
  omega

/-- The days of a year before a date are fewer than those of the year. -/
theorem inYear_lt (h : IsDate year month day) :
    daysBeforeMonth year month + (day - 1) < daysInYear year := by
  have hmonth := daysBeforeMonth_add_le year h.month_pos (Nat.lt_succ_of_le h.month_le)
  rw [daysBeforeMonth_thirteen] at hmonth
  have := h.day_lt
  omega

/-- The days before the end of a year are those of this year and of the years before. -/
theorem dayNumber_lt_iff_year_le (h : IsDate year month day) :
    dayNumber year month day < daysBeforeYear (year' + 1) ↔ year ≤ year' := by
  have hyear := h.inYear_lt
  rw [dayNumber, Nat.add_assoc]
  constructor
  · intro hlt
    refine Nat.le_of_not_lt fun hlate => ?_
    have := daysBeforeYear_mono (Nat.le_add_left 1 year') hlate
    omega
  · intro hle
    have := daysBeforeYear_add_le h.year_pos (Nat.lt_add_one_of_le hle)
    omega

end IsDate

/-- **Days are numbered in the order of their dates.** -/
theorem dayNumber_lt_iff (h : IsDate year month day) (h' : IsDate year' month' day') :
    dayNumber year month day < dayNumber year' month' day' ↔
      year < year' ∨ year = year' ∧ (month < month' ∨ month = month' ∧ day < day') := by
  have hyears := block_lt_iff (daysBeforeYear_add_le h.year_pos)
    (daysBeforeYear_add_le h'.year_pos) h.inYear_lt h'.inYear_lt
  rw [dayNumber, dayNumber, Nat.add_assoc, Nat.add_assoc, hyears]
  refine or_congr_right (and_congr_right ?_)
  rintro rfl
  have hmonths := block_lt_iff (daysBeforeMonth_add_le year h.month_pos)
    (daysBeforeMonth_add_le year h'.month_pos) h.day_lt h'.day_lt
  rw [hmonths]
  have := h.day_pos
  have := h'.day_pos
  omega

theorem eq_of_dayNumber_eq (h : IsDate year month day) (h' : IsDate year' month' day')
    (heq : dayNumber year month day = dayNumber year' month' day') :
    year = year' ∧ month = month' ∧ day = day' := by
  have hlt := dayNumber_lt_iff h h'
  have hgt := dayNumber_lt_iff h' h
  omega

/-- The days that have passed since the start of a month are counted off month by month. -/
theorem monthAndDay_spec (later : Nat) {past : Nat} (hyear : 1 ≤ year) (hmonth : 1 ≤ month)
    (hlater : month + later = 12)
    (hpast : daysBeforeMonth year month + past < daysInYear year) :
    IsDate year (monthAndDay year later month past).1 (monthAndDay year later month past).2 ∧
      daysBeforeMonth year (monthAndDay year later month past).1 +
        ((monthAndDay year later month past).2 - 1) = daysBeforeMonth year month + past := by
  induction later generalizing month past with
  | zero =>
    obtain rfl : month = 12 := hlater
    rw [← daysBeforeMonth_thirteen,
      show (13 : Nat) = 12 + 1 from rfl, daysBeforeMonth_succ year hmonth] at hpast
    exact ⟨⟨hyear, hmonth, Nat.le_refl 12, Nat.le_add_left .., Nat.lt_of_add_lt_add_left hpast⟩,
      rfl⟩
  | succ later ih =>
    rw [monthAndDay]
    by_cases hin : past < daysInMonth year month
    · rw [if_pos hin]
      exact ⟨⟨hyear, hmonth, by omega, Nat.le_add_left .., hin⟩, rfl⟩
    · have hnext := daysBeforeMonth_succ year hmonth
      rw [if_neg hin]
      have hpast' : daysBeforeMonth year (month + 1) + (past - daysInMonth year month) <
          daysInYear year := by omega
      obtain ⟨hdate, hdays⟩ := ih (Nat.le_add_left ..) (by omega) hpast'
      exact ⟨hdate, by omega⟩

/-- The year of a day number, counted off in parts of four hundred years, centuries, groups of four
years and years. -/
theorem daysBeforeYear_parts {cycle century group single : Nat} (hcentury : century ≤ 3)
    (hgroup : group ≤ 24) (hsingle : single ≤ 3) :
    daysBeforeYear (400 * cycle + 100 * century + 4 * group + single + 1) =
      146097 * cycle + 36524 * century + 1461 * group + 365 * single := by
  rw [daysBeforeYear_past]
  omega

/-- Of a group of four years only the last has a day more, and of a century only the last one has it
in its last group. -/
theorem past_lt_daysInYear {cycle century group inGroup : Nat} (hcentury : century ≤ 3)
    (hinGroup : inGroup < 1461) (hin : 1461 * group + inGroup ≤ 36524)
    (hlast : century < 3 → 1461 * group + inGroup < 36524) :
    inGroup - min 3 (inGroup / 365) * 365 <
      daysInYear (400 * cycle + 100 * century + 4 * group + min 3 (inGroup / 365) + 1) := by
  by_cases hday : inGroup = 1460
  · subst hday
    have hleap : isLeapYear (400 * cycle + 100 * century + 4 * group + 3 + 1) = true := by
      rw [isLeapYear_iff]
      omega
    exact Nat.lt_of_lt_of_eq (by decide : 365 < 366) (if_pos hleap).symm
  · have hshort : inGroup - min 3 (inGroup / 365) * 365 < 365 := by omega
    rw [daysInYear]
    split <;> omega

/-- A day number is counted off in whole years and the days that have passed since. -/
theorem exists_yearAndPast (n : Nat) :
    ∃ year past, 1 ≤ year ∧ past < daysInYear year ∧ n = daysBeforeYear year + past ∧
      ofDayNumber n = (year, monthAndDay year 11 1 past) := by
  obtain ⟨century, hcentury⟩ : ∃ c, c = min 3 (n % 146097 / 36524) := ⟨_, rfl⟩
  obtain ⟨inCentury, hinCentury⟩ : ∃ c, c = n % 146097 - century * 36524 := ⟨_, rfl⟩
  have hsize : inCentury ≤ 36524 ∧ (century < 3 → inCentury < 36524) := by omega
  have hparts := Nat.div_add_mod inCentury 1461
  refine ⟨400 * (n / 146097) + 100 * century + 4 * (inCentury / 1461) +
      min 3 (inCentury % 1461 / 365) + 1,
    inCentury % 1461 - min 3 (inCentury % 1461 / 365) * 365, Nat.le_add_left .., ?_, ?_,
    by rw [hinCentury, hcentury]; rfl⟩
  · exact past_lt_daysInYear (by omega) (Nat.mod_lt _ (by decide)) (by omega) (by omega)
  · rw [daysBeforeYear_parts (by omega) (by omega) (Nat.min_le_left ..)]
    omega

/-- **The date of a day number** exists and has that number. -/
theorem dayNumber_ofDayNumber (n : Nat) :
    IsDate (ofDayNumber n).1 (ofDayNumber n).2.1 (ofDayNumber n).2.2 ∧
      dayNumber (ofDayNumber n).1 (ofDayNumber n).2.1 (ofDayNumber n).2.2 = n := by
  obtain ⟨year, past, hyear, hpast, hn, heq⟩ := exists_yearAndPast n
  have hfirst : daysBeforeMonth year 1 + past = past := Nat.zero_add past
  obtain ⟨hdate, hdays⟩ := monthAndDay_spec 11 hyear (Nat.le_refl 1) rfl
    (hfirst.symm ▸ hpast)
  rw [heq]
  refine ⟨hdate, ?_⟩
  rw [dayNumber, Nat.add_assoc, hdays, hfirst, ← hn]

/-! ### Instants -/

namespace DateTime

variable {d e utc : DateTime}

theorem Valid.isDate (h : d.Valid) : IsDate d.year d.month d.day :=
  ⟨h.1.1, h.2.1.1, h.2.1.2, h.2.2.1.1, h.2.2.1.2⟩

/-- The microseconds that have passed since midnight, by the clock that shows `d`. -/
def inDay (d : DateTime) : Nat :=
  ((d.hour * 60 + d.minute) * 60 + d.second) * perSecond + d.microsecond

theorem instant_eq : d.instant = dayNumber d.year d.month d.day * perDay + d.inDay :=
  Nat.add_assoc ..

theorem Valid.inDay_lt (h : d.Valid) : d.inDay < perDay := by
  obtain ⟨-, -, -, hhour, hminute, hsecond, hmicrosecond⟩ := h
  simp only [inDay, perDay, perSecond]
  omega

theorem Valid.instant_div (h : d.Valid) :
    d.instant / perDay = dayNumber d.year d.month d.day := by
  rw [instant_eq, Nat.mul_comm, Nat.mul_add_div (by decide), Nat.div_eq_of_lt h.inDay_lt,
    Nat.add_zero]

theorem Valid.instant_mod (h : d.Valid) : d.instant % perDay = d.inDay := by
  rw [instant_eq, Nat.mul_add_mod', Nat.mod_eq_of_lt h.inDay_lt]

/-- No two dates and times have one instant. -/
theorem eq_of_instant_eq (hd : d.Valid) (he : e.Valid) (h : d.instant = e.instant) : d = e := by
  have hday : dayNumber d.year d.month d.day = dayNumber e.year e.month e.day := by
    rw [← hd.instant_div, ← he.instant_div, h]
  have hclock : d.inDay = e.inDay := by
    rw [← hd.instant_mod, ← he.instant_mod, h]
  obtain ⟨hyear, hmonth, hday⟩ := eq_of_dayNumber_eq hd.isDate he.isDate hday
  obtain ⟨-, -, -, hhour, hminute, hsecond, hmicrosecond⟩ := hd
  obtain ⟨-, -, -, hhour', hminute', hsecond', hmicrosecond'⟩ := he
  cases d
  cases e
  simp only [inDay, perSecond] at *
  simp only [mk.injEq]
  omega

theorem inDay_ofInstant (t : Nat) : (ofInstant t).inDay = t % perDay := by
  simp only [ofInstant, inDay, perDay, perSecond]
  omega

/-- **Every instant** before the end of the last year has a date and time. -/
theorem instant_ofInstant (h : t < instantLimit) :
    (ofInstant t).Valid ∧ (ofInstant t).instant = t := by
  obtain ⟨hdate, hday⟩ := dayNumber_ofDayNumber (t / perDay)
  have hyear : (ofDayNumber (t / perDay)).1 ≤ maxYear := by
    rw [← hdate.dayNumber_lt_iff_year_le, hday]
    exact Nat.div_lt_of_lt_mul (Nat.mul_comm .. ▸ h)
  refine ⟨⟨⟨hdate.year_pos, hyear⟩, ⟨hdate.month_pos, hdate.month_le⟩,
    ⟨hdate.day_pos, hdate.day_le⟩, ?_⟩, ?_⟩
  · simp only [ofInstant, perDay, perSecond]
    omega
  · rw [instant_eq, inDay_ofInstant]
    exact (congrArg (· * perDay + t % perDay) hday).trans (Nat.div_add_mod' t perDay)

theorem Valid.instant_lt (h : d.Valid) : d.instant < instantLimit := by
  rw [instantLimit, ← Nat.div_lt_iff_lt_mul (by decide), h.instant_div,
    h.isDate.dayNumber_lt_iff_year_le]
  exact h.1.2

/-- **A clock that shows UTC** shows the one date and time that has the instant. -/
theorem toUtc?_eq_some_iff :
    d.toUtc? offset = some utc ↔ utc.Valid ∧ (utc.instant : Int) = d.utcInstant offset := by
  simp only [toUtc?, Option.ite_none_right_eq_some, Option.some.injEq]
  constructor
  · rintro ⟨⟨hlo, hhi⟩, rfl⟩
    obtain ⟨hvalid, hinstant⟩ := instant_ofInstant (t := (d.utcInstant offset).toNat) (by omega)
    exact ⟨hvalid, by omega⟩
  · rintro ⟨hvalid, hinstant⟩
    have hlt := hvalid.instant_lt
    have hrange : 0 ≤ d.utcInstant offset ∧ d.utcInstant offset < instantLimit := by omega
    obtain ⟨hvalid', hinstant'⟩ := instant_ofInstant (t := (d.utcInstant offset).toNat) (by omega)
    exact ⟨hrange, eq_of_instant_eq hvalid' hvalid (by omega)⟩

theorem toUtc?_eq_none_iff :
    d.toUtc? offset = none ↔ d.utcInstant offset < 0 ∨ instantLimit ≤ d.utcInstant offset := by
  simp only [toUtc?, ite_eq_right_iff, reduceCtorEq, imp_false]
  omega

/-- With an offset of less than a day, only the first and the last day can have no time in UTC. -/
theorem isEdge_of_toUtc?_eq_none (hd : d.Valid) (hoffset : offset.natAbs < perDay)
    (h : d.toUtc? offset = none) :
    d.year = 1 ∧ d.month = 1 ∧ d.day = 1 ∧ 0 < offset ∨
      d.year = maxYear ∧ d.month = 12 ∧ d.day = 31 ∧ offset < 0 := by
  have hday := hd.instant_div
  rw [toUtc?_eq_none_iff, utcInstant] at h
  rcases h with hearly | hlate
  · have hfirst : dayNumber d.year d.month d.day = dayNumber 1 1 1 := by
      rw [← hday, Nat.div_eq_of_lt (by omega)]
      rfl
    obtain ⟨hyear, hmonth, hday⟩ := eq_of_dayNumber_eq hd.isDate
      ⟨by decide, by decide, by decide, by decide, by decide⟩ hfirst
    exact .inl ⟨hyear, hmonth, hday, by omega⟩
  · have hlast : dayNumber d.year d.month d.day = dayNumber maxYear 12 31 := by
      have hlimit : instantLimit = dayNumber maxYear 12 31 * perDay + perDay := by decide +kernel
      have hlt := hd.instant_lt
      rw [← hday]
      exact Nat.div_eq_of_lt_le (by omega) (by rw [Nat.succ_mul]; omega)
    obtain ⟨hyear, hmonth, hday⟩ := eq_of_dayNumber_eq hd.isDate
      ⟨by decide, by decide, by decide, by decide, by decide⟩ hlast
    exact .inr ⟨hyear, hmonth, hday, by have := hd.instant_lt; omega⟩

/-- The fields of `d` come before those of `e`, the earlier fields first; of the microseconds only
whole milliseconds count. -/
def Precedes (d e : DateTime) : Prop :=
  d.year < e.year ∨ d.year = e.year ∧ (d.month < e.month ∨ d.month = e.month ∧
    (d.day < e.day ∨ d.day = e.day ∧ (d.hour < e.hour ∨ d.hour = e.hour ∧
      (d.minute < e.minute ∨ d.minute = e.minute ∧ (d.second < e.second ∨ d.second = e.second ∧
        d.microsecond / 1000 < e.microsecond / 1000)))))

/-- **The order of the fields** is that of the instants. -/
theorem precedes_iff (hd : d.Valid) (he : e.Valid) :
    d.Precedes e ↔ d.instant / 1000 < e.instant / 1000 := by
  have hday := dayNumber_lt_iff hd.isDate he.isDate
  have hday' := dayNumber_lt_iff he.isDate hd.isDate
  have hclock := hd.inDay_lt
  have hclock' := he.inDay_lt
  obtain ⟨-, -, -, hhour, hminute, hsecond, hmicrosecond⟩ := hd
  obtain ⟨-, -, -, hhour', hminute', hsecond', hmicrosecond'⟩ := he
  rw [instant_eq, instant_eq, Precedes]
  simp only [inDay, perDay, perSecond] at *
  omega

end DateTime

end DeclaredSchema
