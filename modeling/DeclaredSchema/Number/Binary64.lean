/-!
# Double precision numbers as data

A number with a fraction is kept as the IEEE double nearest to what was written. The double is plain
data, a sign, a mantissa and a power of two, and all arithmetic on it is exact arithmetic on natural
numbers, so that equality of literals and their shortest texts can be computed and reasoned about.

## Main definitions

* `Binary64` — a double; finite ones have a mantissa below `2 ^ 53`
* `Binary64.ofRatio` — the double nearest to a ratio, ties to the even mantissa
* `Binary64.ofDecimal` — the double nearest to `digits * 10 ^ exponent`
* `Binary64.numericallyEqual`, `equalsInteger` — equality of values, under which both zeros agree
* `Binary64.toInteger?`, `truncate?` — the value when it is whole, and its whole part
-/

namespace DeclaredSchema

/-- A double: `mantissa * 2 ^ exponent` with a sign, an infinity, or not a number. Zero has mantissa
and exponent `0`, and keeps its sign. -/
inductive Binary64 where
  | finite (negative : Bool) (mantissa : Nat) (exponent : Int)
  | infinite (negative : Bool)
  | notANumber
  deriving DecidableEq, Repr, Inhabited

/-- `num / den` rounded to a natural number, a half going to the even neighbour. -/
def roundDiv (num den : Nat) : Nat :=
  let q := num / den
  let r := num % den
  if 2 * r < den then q else if den < 2 * r then q + 1 else q + q % 2

namespace Binary64

/-- Numerator and denominator of `num / den / 2 ^ e`. -/
def descale (num den : Nat) (e : Int) : Nat × Nat :=
  if 0 ≤ e then (num, den * Nat.pow 2 e.toNat) else (num * Nat.pow 2 (-e).toNat, den)

/-- A rounded mantissa with its exponent: too large exponents are infinite, and zero is normalised. -/
def pack (negative : Bool) (mantissa : Nat) (exponent : Int) : Binary64 :=
  if mantissa = 0 then finite negative 0 0
  else if 971 < exponent then infinite negative
  else finite negative mantissa exponent

/-- The exponent at which `num / den` has a mantissa of 53 bits, but no less than the least one. -/
def exponentOf (num den : Nat) : Int :=
  let e : Int := num.log2 - den.log2 - 53
  let (n, d) := descale num den e
  max (-1074) (if Nat.pow 2 53 ≤ n / d then e + 1 else e)

/-- The double nearest to `num / den`. -/
def ofRatio (negative : Bool) (num den : Nat) : Binary64 :=
  if num = 0 then finite negative 0 0 else
  let e := exponentOf num den
  let (n, d) := descale num den e
  let m := roundDiv n d
  if m = Nat.pow 2 53 then pack negative (Nat.pow 2 52) (e + 1) else pack negative m e

/-- The double nearest to `digits * 10 ^ exponent`. Values that are out of range by their order of
magnitude alone are decided without forming the power. -/
def ofDecimal (negative : Bool) (digits : Nat) (exponent : Int) : Binary64 :=
  if digits = 0 then finite negative 0 0 else
  let magnitude : Int := (Nat.toDigits 10 digits).length + exponent
  if 310 < magnitude then infinite negative
  else if magnitude < -330 then finite negative 0 0
  else if 0 ≤ exponent then ofRatio negative (digits * Nat.pow 10 exponent.toNat) 1
  else ofRatio negative digits (Nat.pow 10 (-exponent).toNat)

/-- The double nearest to an integer; none when its magnitude exceeds the largest double. -/
def ofInteger? (i : Int) : Option Binary64 :=
  match ofRatio (i < 0) i.natAbs 1 with
  | infinite _ => none
  | x => some x

/-- The same magnitude with the other sign. -/
def negate : Binary64 → Binary64
  | finite s m e => finite (!s) m e
  | infinite s => infinite (!s)
  | notANumber => notANumber

def isFinite : Binary64 → Bool
  | finite .. => true
  | _ => false

/-- The whole part, the fraction being dropped; infinities and not-a-number have none. -/
def truncate? : Binary64 → Option Int
  | finite s m e =>
    let magnitude : Nat := if 0 ≤ e then m * Nat.pow 2 e.toNat else m / Nat.pow 2 (-e).toNat
    some (if s then -magnitude else magnitude)
  | _ => none

/-- The value, when it is a whole number. -/
def toInteger? : Binary64 → Option Int
  | finite s m e =>
    if 0 ≤ e ∨ m % Nat.pow 2 (-e).toNat = 0 then (finite s m e).truncate? else none
  | _ => none

/-- Equality of values: the two zeros agree, and not-a-number differs from itself. -/
def numericallyEqual : Binary64 → Binary64 → Bool
  | finite s m e, finite s' m' e' => (m == 0 && m' == 0) || (s == s' && m == m' && e == e')
  | infinite s, infinite s' => s == s'
  | _, _ => false

/-- Whether the value is the integer `i`. -/
def equalsInteger (x : Binary64) (i : Int) : Bool := x.toInteger? == some i

/-- Numerator and denominator of the magnitude of a finite double. -/
def magnitude (m : Nat) (e : Int) : Nat × Nat := descale m 1 (-e)

/-- The order of values, infinities at the ends; not-a-number is below nothing. -/
def lessThan : Binary64 → Binary64 → Bool
  | finite s m e, finite s' m' e' =>
    let (n, d) := magnitude m e
    let (n', d') := magnitude m' e'
    let left : Int := (if s then -(n : Int) else n) * d'
    let right : Int := (if s' then -(n' : Int) else n') * d
    left < right
  | infinite s, infinite s' => s && !s'
  | infinite s, finite .. => s
  | finite .., infinite s => !s
  | _, _ => false

/-- The sum, rounded once. -/
def add : Binary64 → Binary64 → Binary64
  | finite s m e, finite s' m' e' =>
    let (n, d) := magnitude m e
    let (n', d') := magnitude m' e'
    let total : Int := (if s then -(n : Int) else n) * d' + (if s' then -(n' : Int) else n') * d
    if total = 0 then finite (s && s') 0 0 else ofRatio (total < 0) total.natAbs (d * d')
  | infinite s, infinite s' => if s = s' then infinite s else notANumber
  | infinite s, finite .. => infinite s
  | finite .., infinite s => infinite s
  | _, _ => notANumber

/-- The product, rounded once. -/
def mul : Binary64 → Binary64 → Binary64
  | finite s m e, finite s' m' e' =>
    let (n, d) := magnitude m e
    let (n', d') := magnitude m' e'
    ofRatio (s != s') (n * n') (d * d')
  | finite s m _, infinite s' => if m = 0 then notANumber else infinite (s != s')
  | infinite s, finite s' m _ => if m = 0 then notANumber else infinite (s != s')
  | infinite s, infinite s' => infinite (s != s')
  | _, _ => notANumber

example : ofDecimal false 1 0 = finite false (2 ^ 52) (-52) := by decide +kernel

example : ofDecimal false 1 (-1) = finite false 7205759403792794 (-56) := by decide +kernel

example : ofDecimal false 17976931348623159 292 = infinite false ∧
    ofDecimal false 5 (-324) = finite false 1 (-1074) ∧ ofDecimal true 2 (-324) = finite true 0 0 := by
  decide +kernel

end Binary64

end DeclaredSchema
