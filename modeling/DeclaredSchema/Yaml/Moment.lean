import DeclaredSchema.Calendar
import DeclaredSchema.Yaml.Fault

/-!
# Dates and times in a YAML text

A moment is a date, or a date with a time of day; the time may come with an offset from UTC. The parts
of a moment that is written need not be the parts of one that exists.

Dates have an order among themselves, and so do times with an offset, and times without one. Between
two of these sorts there is none.

## Main definitions

* `Yaml.MomentText`, `Yaml.momentText?` — the parts of a moment as they are written
* `Yaml.Moment`, `Yaml.Moment.ofText` — the moments that exist
* `Yaml.Moment.same`, `Yaml.Moment.before` — equality and order
-/

namespace DeclaredSchema.Yaml

/-! ## Written moments -/

/-- A number of digits at the front of a text, at least `least` and at most two, with the rest. -/
def fieldOf (least : Nat) (text : List Char) : Option (List Char × List Char) :=
  let n := min 2 (text.takeWhile Char.isDigit).length
  if least ≤ n then some (text.take n, text.drop n) else none

/-- Past the given character. -/
def past (mark : Char) : List Char → Option (List Char)
  | c :: rest => if c = mark then some rest else none
  | [] => none

/-- The parts of a date and time as they are written. The parts from the hour on may be missing. -/
structure MomentText where
  year : List Char
  month : List Char
  day : List Char
  time : Option (List Char × List Char × List Char)
  fraction : List Char
  zone : Option (Bool × List Char × List Char)
  utc : Bool

/-- The zone at the end of a time: nothing, the letter of UTC, or a signed offset. -/
def zoneOf (text : List Char) : Option (Option (Bool × List Char × List Char) × Bool) :=
  match text.dropWhile fun c => c = ' ' || c = '\t' with
  | [] => if text.isEmpty then some (none, false) else none
  | ['Z'] => some (none, true)
  | sign :: rest =>
    if sign = '-' ∨ sign = '+' then do
      let (hour, rest) ← fieldOf 1 rest
      if rest.isEmpty then return (some (sign = '-', hour, []), false)
      let (minute, rest) ← fieldOf 2 (← past ':' rest)
      if rest.isEmpty then return (some (sign = '-', hour, minute), false) else none
    else none

/-- What separates a time from the date before it. -/
def pastDate (text : List Char) : Option (List Char) :=
  match text with
  | 'T' :: rest => some rest
  | 't' :: rest => some rest
  | _ =>
    let rest := text.dropWhile fun c => c = ' ' || c = '\t'
    if rest.length < text.length then some rest else none

/-- The parts of a date, with or without a time. -/
def momentText? (text : List Char) : Option MomentText := do
  let year := text.take 4
  if year.length < 4 || !year.all Char.isDigit then failure
  let (month, rest) ← fieldOf 1 (← past '-' (text.drop 4))
  let (day, rest) ← fieldOf 1 (← past '-' rest)
  if rest.isEmpty then return ⟨year, month, day, none, [], none, false⟩
  let (hour, rest) ← fieldOf 1 (← pastDate rest)
  let (minute, rest) ← fieldOf 2 (← past ':' rest)
  let (second, rest) ← fieldOf 2 (← past ':' rest)
  let (fraction, rest) := match rest with
    | '.' :: rest => rest.span Char.isDigit
    | _ => ([], rest)
  let (zone, utc) ← zoneOf rest
  return ⟨year, month, day, some (hour, minute, second), fraction, zone, utc⟩

/-! ## Moments -/

/-- A date, or a date and time that may come with an offset from UTC in microseconds. -/
inductive Moment where
  | date (year month day : Nat)
  | time (value : DateTime) (offset : Option Int)
  deriving DecidableEq, Repr

/-- The number that ASCII digits stand for. -/
def digitsOf (text : List Char) : Nat := ofDigits (text.map fun c => c.toNat - 48)

/-- A day that exists. -/
def checkDay (year month day : Nat) : Except MomentFault Unit :=
  if year < 1 then .error (.year year)
  else if month < 1 ∨ 12 < month then .error .month
  else if day < 1 ∨ daysInMonth year month < day then .error .day
  else .ok ()

def checkTime (hour minute second : Nat) : Except MomentFault Unit :=
  if 24 ≤ hour then .error .hour
  else if 60 ≤ minute then .error .minute
  else if 60 ≤ second then .error .second
  else .ok ()

/-- The first six digits of a fraction of a second, filled up with zeros. -/
def microseconds (fraction : List Char) : Nat :=
  let digits := fraction.take 6
  digitsOf (digits ++ List.replicate (6 - digits.length) '0')

/-- The offset of a zone in microseconds, which is below a day. It is read in minutes. -/
def offsetOf (m : MomentText) : Except MomentFault (Option Int) :=
  match m.zone with
  | some (negative, hours, minutes) =>
    let size : Int := (digitsOf hours * 60 + digitsOf minutes) * 60
    let offset := if negative then -size else size
    if offset.natAbs < 86400 then .ok (some (offset * DateTime.perSecond))
    else .error (.offset offset)
  | none => .ok (if m.utc then some 0 else none)

namespace Moment

/-- The moment of the parts that are written. The offset is looked at first. -/
def ofText (m : MomentText) : Except MomentFault Moment := do
  let year := digitsOf m.year
  let month := digitsOf m.month
  let day := digitsOf m.day
  match m.time with
  | none =>
    checkDay year month day
    return .date year month day
  | some (hour, minute, second) =>
    let offset ← offsetOf m
    checkDay year month day
    checkTime (digitsOf hour) (digitsOf minute) (digitsOf second)
    return .time ⟨year, month, day, digitsOf hour, digitsOf minute, digitsOf second,
      microseconds m.fraction⟩ offset

/-- Whether two moments are the same. With an offset, it is the instant that counts. -/
def same : Moment → Moment → Bool
  | date y m d, date y' m' d' => y = y' && m = m' && d = d'
  | time d none, time e none => d = e
  | time d (some o), time e (some p) => d.utcInstant o = e.utcInstant p
  | _, _ => false

/-- Why two moments have no order between them. -/
inductive Disorder where
  | timeAndDate
  | offsets
  deriving DecidableEq, Repr

def Disorder.message : Disorder → String
  | timeAndDate => "can't compare datetime.datetime to datetime.date"
  | offsets => "can't compare offset-naive and offset-aware datetimes"

/-- Whether one moment comes before another. -/
def before : Moment → Moment → Except Disorder Bool
  | date y m d, date y' m' d' => .ok (dayNumber y m d < dayNumber y' m' d')
  | time d none, time e none => .ok (d.instant < e.instant)
  | time d (some o), time e (some p) => .ok (d.utcInstant o < e.utcInstant p)
  | time .., time .. => .error .offsets
  | _, _ => .error .timeAndDate

/-- The name of the sort of a moment. -/
def sort : Moment → String
  | date .. => "datetime.date"
  | time .. => "datetime.datetime"

end Moment

end DeclaredSchema.Yaml
