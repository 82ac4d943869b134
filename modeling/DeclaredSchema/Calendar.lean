/-!
# Dates and times

Days are counted in the proleptic Gregorian calendar, from the first of January of the year 1 as day
zero. A date with a time of day is an instant, given in microseconds from the start of that day; a
fixed offset says by how many microseconds a clock is ahead of UTC.

## Main definitions

* `isLeapYear`, `daysInMonth` — the rules of the calendar
* `dayNumber`, `ofDayNumber` — a date as a number of days, and back
* `DateTime` — a date with a time of day
* `DateTime.instant`, `DateTime.ofInstant` — a date and time as an instant, and back
* `DateTime.toUtc?` — the same instant by a clock that shows UTC
-/

namespace DeclaredSchema

/-! ## Days -/

/-- Every fourth year, but of the centuries only every fourth. -/
def isLeapYear (year : Nat) : Bool := year % 4 = 0 && (year % 100 ≠ 0 || year % 400 = 0)

def daysInMonth (year month : Nat) : Nat :=
  match month with
  | 2 => if isLeapYear year then 29 else 28
  | 4 | 6 | 9 | 11 => 30
  | _ => 31

/-- The days of a year before the first of the `month`. -/
def daysBeforeMonth (year : Nat) : Nat → Nat
  | 0 => 0
  | 1 => 0
  | month + 1 => daysBeforeMonth year month + daysInMonth year month

/-- The days before the first of January of a year. -/
def daysBeforeYear (year : Nat) : Nat :=
  let past := year - 1
  past * 365 + past / 4 - past / 100 + past / 400

/-- The number of a day; the first day of the year 1 is day zero. -/
def dayNumber (year month day : Nat) : Nat :=
  daysBeforeYear year + daysBeforeMonth year month + (day - 1)

/-- Month and day, from the days that have passed since the start of `month` in `year`. -/
def monthAndDay (year : Nat) : Nat → Nat → Nat → Nat × Nat
  | 0, month, past => (month, past + 1)
  | later + 1, month, past =>
    if past < daysInMonth year month then (month, past + 1)
    else monthAndDay year later (month + 1) (past - daysInMonth year month)

/-- Year, month and day of a day number. The calendar repeats after 400 years; within them the
centuries, the groups of four years and the years are counted off, the last of each being longer or
shorter than the others. -/
def ofDayNumber (n : Nat) : Nat × Nat × Nat :=
  let cycle := n / 146097
  let inCycle := n % 146097
  let century := min 3 (inCycle / 36524)
  let inCentury := inCycle - century * 36524
  let group := inCentury / 1461
  let inGroup := inCentury % 1461
  let single := min 3 (inGroup / 365)
  let year := 400 * cycle + 100 * century + 4 * group + single + 1
  let (month, day) := monthAndDay year 11 1 (inGroup - single * 365)
  (year, month, day)

/-! ## Instants -/

/-- A date with a time of day, as a calendar and a clock show it. -/
structure DateTime where
  year : Nat
  month : Nat
  day : Nat
  hour : Nat
  minute : Nat
  second : Nat
  microsecond : Nat
  deriving DecidableEq, Repr

namespace DateTime

/-- The years that dates can have. -/
def maxYear : Nat := 9999

/-- Whether the fields name a moment: a day that exists, and a time below 24 hours. -/
def Valid (d : DateTime) : Prop :=
  (1 ≤ d.year ∧ d.year ≤ maxYear) ∧ (1 ≤ d.month ∧ d.month ≤ 12) ∧
    (1 ≤ d.day ∧ d.day ≤ daysInMonth d.year d.month) ∧
    d.hour < 24 ∧ d.minute < 60 ∧ d.second < 60 ∧ d.microsecond < 1000000

instance (d : DateTime) : Decidable d.Valid := by unfold Valid; infer_instance

/-- The microseconds of a second, and of a day. -/
def perSecond : Nat := 1000000

def perDay : Nat := 86400 * perSecond

/-- The microseconds from the start of the year 1, by the clock that shows `d`. -/
def instant (d : DateTime) : Nat :=
  dayNumber d.year d.month d.day * perDay +
    ((d.hour * 60 + d.minute) * 60 + d.second) * perSecond + d.microsecond

/-- The first microsecond after the last year. -/
def instantLimit : Nat := daysBeforeYear (maxYear + 1) * perDay

/-- The date and time at which a given number of microseconds have passed. -/
def ofInstant (t : Nat) : DateTime :=
  let (year, month, day) := ofDayNumber (t / perDay)
  let inDay := t % perDay
  let seconds := inDay / perSecond
  { year, month, day
    hour := seconds / 3600
    minute := seconds / 60 % 60
    second := seconds % 60
    microsecond := inDay % perSecond }

/-- The instant shown by a clock that is `offset` microseconds ahead of UTC; it may lie outside the
years that dates can have. -/
def utcInstant (d : DateTime) (offset : Int) : Int := (d.instant : Int) - offset

/-- The same instant by a clock that shows UTC, if it lies in the years that dates can have. -/
def toUtc? (d : DateTime) (offset : Int) : Option DateTime :=
  let t := d.utcInstant offset
  if 0 ≤ t ∧ t < instantLimit then some (ofInstant t.toNat) else none

end DateTime

example : dayNumber 1 1 1 = 0 ∧ dayNumber 9999 12 31 = 3652058 ∧ dayNumber 1970 1 1 = 719162 := by
  decide +kernel

example : ofDayNumber 3652058 = (9999, 12, 31) ∧ ofDayNumber 730178 = (2000, 2, 29) ∧
    ofDayNumber 146096 = (400, 12, 31) := by
  decide +kernel

end DeclaredSchema
