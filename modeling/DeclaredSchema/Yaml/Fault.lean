import DeclaredSchema.Number.Reading

/-!
# Texts that are no YAML document

Most faults of a text are reported alike, as a text that is not well formed. A few are faults of a
single scalar or number, which has the form of something but stands for nothing.

## Main definitions

* `Yaml.Fault` — why a text stands for no data
* `Yaml.Fault.message` — the text of a fault of a scalar
-/

namespace DeclaredSchema.Yaml

/-- Fields of a date or a time that name no moment, in the order in which they are checked. -/
inductive MomentFault where
  | offset (seconds : Int)
  | year (value : Nat)
  | month
  | day
  | hour
  | minute
  | second
  deriving DecidableEq, Repr

/-- A span of time in whole days and the seconds of the rest, of which the latter are never
negative. -/
def spanText (seconds : Int) : String :=
  let days := seconds / 86400
  let rest := seconds % 86400
  let parts := (if days ≠ 0 then ["days=" ++ toString days] else []) ++
    (if rest ≠ 0 then ["seconds=" ++ toString rest] else [])
  "datetime.timedelta(" ++ (if parts.isEmpty then "0" else ", ".intercalate parts) ++ ")"

def MomentFault.message : MomentFault → String
  | offset seconds =>
    "offset must be a timedelta strictly between -timedelta(hours=24) and " ++
    "timedelta(hours=24), not " ++ spanText seconds ++ "."
  | year n => s!"year {n} is out of range"
  | month => "month must be in 1..12"
  | day => "day is out of range for month"
  | hour => "hour must be in 0..23"
  | minute => "minute must be in 0..59"
  | second => "second must be in 0..59"

/-- Why a text stands for no data. Besides a text that is not well formed, there are
* escapes beyond the code points there are, some of them beyond all bounds,
* numbers that cannot be read, among them those of which nothing is left to be read, and numbers
  in base sixty with more digits than a double can weigh,
* words for truth values that are none, in lower case,
* moments that do not have the form of a moment, or that a mapping gives, and those that do not
  exist. -/
inductive Fault where
  | malformed
  | noCodePoint
  | hugeCodePoint
  | numeral (fault : NumeralFault)
  | emptyNumeral
  | hugeWeight
  | noTruth (word : CodeText)
  | noMoment
  | mappedMoment
  | moment (fault : MomentFault)
  deriving DecidableEq, Repr

def Fault.message : Fault → String
  | malformed => "not well formed"
  | noCodePoint => "chr() arg not in range(0x110000)"
  | hugeCodePoint => "Python int too large to convert to C int"
  | numeral f => f.message
  | emptyNumeral => "string index out of range"
  | hugeWeight => "int too large to convert to float"
  | noTruth word => word.quote
  | noMoment => "'NoneType' object has no attribute 'groupdict'"
  | mappedMoment => "expected string or bytes-like object, got 'list'"
  | moment f => f.message

end DeclaredSchema.Yaml
