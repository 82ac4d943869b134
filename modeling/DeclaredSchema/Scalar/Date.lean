import DeclaredSchema.Scalar.Fault

/-!
# The date scalar

A date travels as a text of 24 characters, a UTC timestamp with milliseconds. Writing one shows the
instant by a clock in UTC and drops what is below a millisecond; an instant that no such clock can
show is refused. Reading one first checks the form,
in which a digit may be of any script, and then each field; most fields only take ASCII digits where
their range depends on the digit.

## Main definitions

* `DateTime.timestamp` — the text of a moment in UTC
* `hasTimestampForm`, `readTimestamp?` — the form of a text, and the moment that it names
* `Date.serialize`, `Date.parse`, `Date.parseNode` — the scalar
-/

namespace DeclaredSchema

open Text

/-! ## Writing -/

/-- A number in decimal, with zeros in front of it up to the `width`. -/
def padded (width n : Nat) : List Char := (Nat.toDigits 10 n).leftpad width '0'

/-- The text of a moment in UTC, without what is below a millisecond. -/
def DateTime.timestamp (d : DateTime) : List Char :=
  padded 4 d.year ++ '-' :: (padded 2 d.month ++ '-' :: (padded 2 d.day ++
    'T' :: (padded 2 d.hour ++ ':' :: (padded 2 d.minute ++ ':' :: (padded 2 d.second ++
      '.' :: (padded 3 (d.microsecond / 1000) ++ ['Z']))))))

/-- The characters of a timestamp. -/
def timestampLength : Nat := 24

/-! ## Reading -/

/-- A timestamp with a zero in the place of each digit. -/
def timestampForm : List Char := "0000-00-00T00:00:00.000Z".toList

/-- Whether a text has the given form, in which a zero stands for any decimal digit. -/
def hasForm : List Char → List Char → Bool
  | [], [] => true
  | f :: form, c :: text => (if f = '0' then isDecimal c else c = f) && hasForm form text
  | _, _ => false

def hasTimestampForm (text : List Char) : Bool := hasForm timestampForm text

/-- The digits of a field: `width` characters from the `start`-th on. -/
def field (text : List Char) (start width : Nat) : List Char := (text.drop start).take width

/-- The number that decimal digits of any script stand for. -/
def digitsValue (ds : List Char) : Nat := ofDigits (ds.map fun c => (decimalValue? c).getD 0)

/-- Whether `c` is an ASCII digit of one of the given values. -/
def isAsciiDigit (lo hi : Nat) (c : Char) : Bool := 48 + lo ≤ c.toNat && c.toNat ≤ 48 + hi

/-- The digits that a month may have. -/
def isMonthField : List Char → Bool
  | [a, b] => (a = '1' && isAsciiDigit 0 2 b) || (a = '0' && isAsciiDigit 1 9 b)
  | _ => false

/-- The digits that a day may have; its second digit may be of any script behind a one or a two. -/
def isDayField : List Char → Bool
  | [a, b] =>
    (a = '3' && isAsciiDigit 0 1 b) || (isAsciiDigit 1 2 a && isDecimal b) ||
      (a = '0' && isAsciiDigit 1 9 b)
  | _ => false

/-- The digits that an hour may have; its second digit may be of any script below twenty. -/
def isHourField : List Char → Bool
  | [a, b] => (a = '2' && isAsciiDigit 0 3 b) || (isAsciiDigit 0 1 a && isDecimal b)
  | _ => false

/-- The digits that a minute or a second may have; the second digit may be of any script. -/
def isSixtiethField : List Char → Bool
  | [a, b] => isAsciiDigit 0 5 a && isDecimal b
  | _ => false

/-- The moment that a text of the right form names, if there is one. -/
def readTimestamp? (text : List Char) : Option DateTime :=
  let year := field text 0 4
  let month := field text 5 2
  let day := field text 8 2
  let hour := field text 11 2
  let minute := field text 14 2
  let second := field text 17 2
  let fraction := field text 20 3
  let d : DateTime := ⟨digitsValue year, digitsValue month, digitsValue day, digitsValue hour,
    digitsValue minute, digitsValue second, digitsValue fraction * 1000⟩
  if isMonthField month && isDayField day && isHourField hour && isSixtiethField minute &&
      isSixtiethField second && fraction.all (isAsciiDigit 0 9) && decide d.Valid then some d
  else none

/-! ## The scalar -/

namespace Date

/-- The name of the scalar. -/
def name : String := "Date"

def description : String := "A UTC timestamp serialized as YYYY-MM-DDTHH:MM:SS.mmmZ."

/-- Writes a moment in UTC, unless its text is too long; the offset is shown if it is refused. -/
def write (d : DateTime) (offset : Option Int) : Except ValueFault String :=
  if d.timestamp.length = timestampLength then .ok (String.ofList d.timestamp)
  else .error (.yearRange (d.display offset))

/-- Writes a date and time; without an offset it is taken to be in UTC. -/
def serialize : Value → Except ValueFault String
  | .dateTime d none => write d none
  | .dateTime d (some offset) =>
    match d.toUtc? offset with
    | some utc => write utc (some 0)
    | none => .error .dateRange
  | v => v.refuse .notDateTime

/-- Reads a text as a moment in UTC. -/
def parseText (text : String) : Except ValueFault DateTime :=
  if !hasTimestampForm text.toList then .error (.notTimestamp (Text.quote text))
  else
    match readTimestamp? text.toList with
    | some d => .ok d
    | none => .error (.noSuchMoment text)

def parse : Value → Except ValueFault DateTime
  | .str text => parseText text
  | v => v.refuse .notTimestamp

def parseNode : ValueNode → Except ValueFault DateTime
  | .string text _ => parseText text
  | node => .error (.dateNode node)

example : (serialize (.dateTime ⟨2024, 1, 1, 0, 30, 0, 1999⟩ (some 3600000000))).toOption =
    some "2023-12-31T23:30:00.001Z" := by
  decide +kernel

example : (parseText "2024-01-1٢T00:00:00.070Z").toOption = some ⟨2024, 1, 12, 0, 0, 0, 70000⟩ ∧
    (parseText "2023-02-29T00:00:00.000Z").toOption = none := by
  decide +kernel

end Date

end DeclaredSchema
