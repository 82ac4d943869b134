import DeclaredSchema.Number.Binary64
import DeclaredSchema.Text.Blank
import DeclaredSchema.Text.CodeText
import DeclaredSchema.Text.Numeral

/-!
# Numbers and their texts

An integer is an optional sign and a run of decimal digits of any script, in which a single
underscore may stand between two digits; a real number may have a point, an exponent, or one of the
names of infinity and not-a-number. White space around either is ignored. Characters that are
digits but not decimal ones, such as superscripts, make a run that is no number.

An integer has at most 4300 digits, when it is read and when it is written. This is the limit at
which either would take long. It does not concern the bases two, eight and sixteen, in which the base
may be said before the digits.

## Main definitions

* `NumeralFault` — why a text is no number
* `digitRun` — the digits at the front of a text, and what follows them
* `readInteger`, `readReal` — the number that a whole text stands for
* `readInBase` — the integer that a whole text stands for in base two, eight or sixteen
* `writeInteger?` — the text of an integer
-/

namespace DeclaredSchema

open Text

/-- Why a text is no number. -/
inductive NumeralFault where
  | notInteger (base : Nat) (text : CodeText)
  | tooManyDigits (count : Nat)
  | notReal (text : CodeText)
  deriving DecidableEq, Repr

/-- The most digits that an integer may have. -/
def digitLimit : Nat := 4300

/-- The text of the fault; a long text is cut to two hundred characters in the first. -/
def NumeralFault.message : NumeralFault → String
  | notInteger base text =>
    let shown := String.ofList (text.quoted.take 200)
    s!"invalid literal for int() with base {base}: {shown}"
  | tooManyDigits count =>
    s!"Exceeds the limit ({digitLimit} digits) for integer string conversion: value has {count} " ++
    "digits; use sys.set_int_max_str_digits() to increase the limit"
  | notReal text => s!"could not convert string to float: {text.quote}"

/-- White space around a number; the four separator controls do not count. -/
def isMargin (c : Char) : Bool := isBlank c && !(0x1C ≤ c.toNat && c.toNat ≤ 0x1F)

/-- A text without the margins of a number. -/
def trimMargins (text : List Char) : List Char :=
  ((text.dropWhile isMargin).reverse.dropWhile isMargin).reverse

/-- The values of the digits that follow a digit, with what comes after them; `none` when an
underscore does not stand between two digits. -/
def digitsAfter : List Char → Option (List Nat × List Char)
  | [] => some ([], [])
  | '_' :: c :: rest =>
    match decimalValue? c with
    | some v => (digitsAfter rest).map fun (vs, tail) => (v :: vs, tail)
    | none => none
  | c :: rest =>
    match decimalValue? c with
    | some v => (digitsAfter rest).map fun (vs, tail) => (v :: vs, tail)
    | none => if c = '_' then none else some ([], c :: rest)

/-- The values of the digits at the front of a text, with what follows them; `none` when an
underscore after the first digit does not stand between two digits. -/
def digitRun : List Char → Option (List Nat × List Char)
  | [] => some ([], [])
  | c :: rest =>
    match decimalValue? c with
    | some v => (digitsAfter rest).map fun (vs, tail) => (v :: vs, tail)
    | none => some ([], c :: rest)

/-- The number that digits stand for in base ten, most significant first. -/
def ofDigits (values : List Nat) : Nat := values.foldl (fun n v => 10 * n + v) 0

/-- A sign at the front of a text: whether it is negative, and the rest. -/
def signOf : List Char → Bool × List Char
  | '-' :: rest => (true, rest)
  | '+' :: rest => (false, rest)
  | text => (false, text)

/-- The integer that the whole of `text` stands for. -/
def readInteger (text : CodeText) : Except NumeralFault Int :=
  let (negative, body) := signOf (trimMargins text.shadow)
  match digitRun body with
  | some (v :: vs, rest) =>
    if digitLimit < (v :: vs).length then .error (.tooManyDigits (v :: vs).length)
    else if rest.isEmpty then
      .ok (if negative then -(ofDigits (v :: vs) : Int) else ofDigits (v :: vs))
    else .error (.notInteger 10 text)
  | _ => .error (.notInteger 10 text)

/-- An integer in decimal, unless it has too many digits. -/
def writeInteger? (i : Int) : Option String :=
  if digitLimit < (Nat.toDigits 10 i.natAbs).length then none else some (toString i)

/-- A decimal digit as it is written in ASCII; other characters stay. -/
def plainDigit (c : Char) : Char :=
  match decimalValue? c with
  | some v => Char.ofNat (48 + v)
  | none => c

/-- The value of a digit of ASCII: a decimal digit, or a letter from ten on. -/
def digitValue? (c : Char) : Option Nat :=
  if c.isDigit then some (c.toNat - 48)
  else if c.isLower then some (c.toNat - 87)
  else if c.isUpper then some (c.toNat - 55)
  else none

/-- The letter that says a base. -/
def baseLetter : Nat → Char
  | 2 => 'b'
  | 8 => 'o'
  | _ => 'x'

/-- Past the sign of a base, a zero and its letter in either case. -/
def pastBase (base : Nat) : List Char → List Char
  | '0' :: c :: rest => if c.toLower = baseLetter base then rest else '0' :: c :: rest
  | text => text

/-- The integer that the whole of `text` stands for in base two, eight or sixteen. There are no
underscores. -/
def readInBase (base : Nat) (text : CodeText) : Except NumeralFault Int :=
  let (negative, body) := signOf ((trimMargins text.shadow).map plainDigit)
  match (pastBase base body).mapM digitValue? with
  | some (v :: vs) =>
    if (v :: vs).all (· < base) then
      let n := (v :: vs).foldl (fun n v => base * n + v) 0
      .ok (if negative then -(n : Int) else n)
    else .error (.notInteger base text)
  | _ => .error (.notInteger base text)

/-- The exponent part of a real number, with the sign applied. -/
def readExponent? : List Char → Option Int
  | [] => some 0
  | e :: rest =>
    if e = 'e' ∨ e = 'E' then
      let (negative, body) := signOf rest
      match digitRun body with
      | some (v :: vs, []) =>
        some (if negative then -(ofDigits (v :: vs) : Int) else ofDigits (v :: vs))
      | _ => none
    else none

/-- The digits after a point, if one stands at the front, and what follows. -/
def fractionRun : List Char → Option (List Nat × List Char)
  | '.' :: rest => digitRun rest
  | text => some ([], text)

/-- A real number without sign or margins. -/
def readMagnitude? (negative : Bool) (body : List Char) : Option Binary64 :=
  let name := body.map Char.toLower
  if name = "inf".toList ∨ name = "infinity".toList then some (.infinite negative)
  else if name = "nan".toList then some .notANumber
  else do
    let (whole, rest) ← digitRun body
    let (fraction, rest) ← fractionRun rest
    let exponent ← readExponent? rest
    if whole.isEmpty && fraction.isEmpty then none
    else some (.ofDecimal negative (ofDigits (whole ++ fraction)) (exponent - fraction.length))

/-- The double nearest to the real number that the whole of `text` stands for. -/
def readReal (text : CodeText) : Except NumeralFault Binary64 :=
  let (negative, body) := signOf (trimMargins text.shadow)
  match readMagnitude? negative body with
  | some x => .ok x
  | none => .error (.notReal text)

example : (readInteger " -1_2 ").toOption = some (-12) ∧ (readInteger "1__2").toOption = none ∧
    (readInteger "1²").toOption = none := by
  decide +kernel

example : (readInBase 16 "-0xfF").toOption = some (-255) ∧ (readInBase 8 " 017 ").toOption = some 15 ∧
    (readInBase 2 "0x1").toOption = none ∧ (readInBase 8 "8").toOption = none := by
  decide +kernel

example : (readReal "٣.5").toOption = some (.ofDecimal false 35 (-1)) ∧
    (readReal "1.²").toOption = none ∧ (readReal "-.5e1").toOption = some (.ofDecimal true 5 0) := by
  decide +kernel

end DeclaredSchema
