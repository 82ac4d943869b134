import DeclaredSchema.Number.Binary64

/-!
# The shortest decimal text of a double

A double is written with the fewest digits that read back as the same double; of several such
numbers with equally few digits the nearest is taken, and of two equally near the one with an even
last digit.

The reals that round to the double `m * 2 ^ q` form an interval around it, ends included when `m`
is even. On the decimal grid of a given step, if any point lies in the interval then so does one of
the two neighbours of the value, so one test per digit count finds the fewest digits. All
comparisons are between natural numbers, over quarters of the unit `2 ^ q`.

## Main definitions

* `Shortest.digits` — the digits, as a number without final zeros, and their power of ten
* `Binary64.text` — the text: positional from `10 ^ -4` to below `10 ^ 16`, else with an exponent
-/

namespace DeclaredSchema

namespace Shortest

/-- A grid of decimal numbers: the value and the ends of its interval, in steps of the grid, over
one denominator. -/
structure Grid where
  low : Nat
  value : Nat
  high : Nat
  step : Nat

/-- The interval of `m * 2 ^ q` on the grid of step `10 ^ k`. Below a power of two the doubles lie
twice as close, so the lower half of the interval is half as long. -/
def gridOf (m : Nat) (q k : Int) : Grid :=
  let unit : Int := q - 2
  let scale := Nat.pow 2 unit.toNat * Nat.pow 10 (-k).toNat
  let below := if m = Nat.pow 2 52 ∧ -1074 < q then 4 * m - 1 else 4 * m - 2
  { low := below * scale
    value := 4 * m * scale
    high := (4 * m + 2) * scale
    step := Nat.pow 10 k.toNat * Nat.pow 2 (-unit).toNat }

/-- Whether the `c`-th point of the grid reads back as the value. -/
def Grid.holds (g : Grid) (closed : Bool) (c : Nat) : Bool :=
  let x := c * g.step
  if closed then g.low ≤ x && x ≤ g.high else g.low < x && x < g.high

/-- The point of the grid that stands for the value, if one does. -/
def Grid.nearest? (g : Grid) (closed : Bool) : Option Nat :=
  let c := g.value / g.step
  let down := g.holds closed c
  let up := g.holds closed (c + 1)
  if down && up then
    let before := g.value - c * g.step
    let after := (c + 1) * g.step - g.value
    some (if before < after then c else if after < before then c + 1 else c + c % 2)
  else if down then some c
  else if up then some (c + 1)
  else none

/-- The exponent of ten of the leading digit of `m * 2 ^ q`, for `m` not zero. -/
def leadingExponent (m : Nat) (q : Int) : Int :=
  let reaches (p : Int) : Bool :=
    Nat.pow 10 p.toNat * Nat.pow 2 (-q).toNat ≤ m * Nat.pow 2 q.toNat * Nat.pow 10 (-p).toNat
  let estimate : Int := ((m.log2 : Int) + q) * 30103 / 100000
  if reaches (estimate + 1) then estimate + 1
  else if reaches estimate then estimate
  else estimate - 1

/-- The first of the grids from `k` down to finer steps on which the value has a point. -/
def search (m : Nat) (q : Int) : Nat → Int → Nat × Int
  | 0, k => (m, k)
  | fuel + 1, k =>
    match (gridOf m q k).nearest? (m % 2 = 0) with
    | some c => (c, k)
    | none => search m q fuel (k - 1)

/-- A number without its final zeros, with the power of ten that they stood for. -/
def stripZeros : Nat → Nat → Int → Nat × Int
  | 0, n, k => (n, k)
  | fuel + 1, n, k => if n ≠ 0 ∧ n % 10 = 0 then stripZeros fuel (n / 10) (k + 1) else (n, k)

/-- The shortest digits of `m * 2 ^ q`, for `m` not zero, and the power of ten that they count. No
double needs more than seventeen digits. -/
def digits (m : Nat) (q : Int) : Nat × Int :=
  let (c, k) := search m q 18 (leadingExponent m q)
  stripZeros 18 c k

end Shortest

namespace Binary64

/-- Digits with their decimal point, the last digit counting `10 ^ k`. At least one digit stands on
either side of the point. -/
def positional (ds : List Char) (k : Int) : List Char :=
  if 0 ≤ k then ds ++ List.replicate k.toNat '0' ++ ".0".toList
  else
    let places := (-k).toNat
    let padded := List.replicate (places + 1 - ds.length) '0' ++ ds
    padded.take (padded.length - places) ++ '.' :: padded.drop (padded.length - places)

/-- One digit before the point and an exponent of at least two digits. -/
def scientific (ds : List Char) (exponent : Int) : List Char :=
  let fraction := if ds.length ≤ 1 then [] else '.' :: ds.drop 1
  let size := Nat.toDigits 10 exponent.natAbs
  ds.take 1 ++ fraction ++ 'e' :: (if exponent < 0 then '-' else '+') ::
    (List.replicate (2 - size.length) '0' ++ size)

/-- The text of a positive finite double. -/
def magnitudeText (m : Nat) (q : Int) : List Char :=
  let (c, k) := Shortest.digits m q
  let ds := Nat.toDigits 10 c
  let leading : Int := k + ds.length - 1
  if -4 ≤ leading ∧ leading < 16 then positional ds k else scientific ds leading

/-- The text of a double, as literals and messages show it. -/
def text : Binary64 → String
  | finite s m q =>
    String.ofList ((if s then ['-'] else []) ++ (if m = 0 then "0.0".toList else magnitudeText m q))
  | infinite s => if s then "-inf" else "inf"
  | notANumber => "nan"

example : (ofDecimal false 15 (-1)).text = "1.5" ∧ (ofDecimal true 0 0).text = "-0.0" := by
  decide +kernel

example : (ofDecimal false 1 16).text = "1e+16" ∧ (ofDecimal false 1 (-5)).text = "1e-05" := by
  decide +kernel

example : (ofDecimal false 123456789 3).text = "123456789000.0" ∧
    (ofDecimal false 5 (-324)).text = "5e-324" := by
  decide +kernel

end Binary64

end DeclaredSchema
