import DeclaredSchema.Text.Lowercase
import DeclaredSchema.Yaml.Atom
import DeclaredSchema.Yaml.Tag

/-!
# Atoms of texts

The text of a scalar is read by its tag. The tag may be written, so that the text need not have the
form that goes with it: more texts are read than are recognised, and others are faults.

## Main definitions

* `Yaml.Atom.ofText` — what a text stands for by its tag
-/

namespace DeclaredSchema.Yaml.Atom

/-! ## Numbers -/

/-- A text without underscores. -/
def withoutUnderscores (text : CodeText) : CodeText := text.filter (· ≠ .char '_')

/-- The parts of a text between colons, each read as a number. -/
def parts {α : Type} (read : CodeText → Except NumeralFault α) (text : CodeText) :
    Except Fault (List α) :=
  ((cutAt (.char ':') text).mapM read).mapError .numeral

/-- An integer without its sign: in base two, eight, ten or sixteen by its start, or in base sixty with
colons between the digits. -/
def magnitude (body : CodeText) : Except Fault Int :=
  match body with
  | [] => .error .emptyNumeral
  | [.char '0'] => .ok 0
  | .char '0' :: .char 'b' :: digits => (readInBase 2 digits).mapError .numeral
  | .char '0' :: .char 'x' :: digits => (readInBase 16 digits).mapError .numeral
  | .char '0' :: _ => (readInBase 8 body).mapError .numeral
  | _ => do return (← parts readInteger body).foldl (fun n d => 60 * n + d) 0

def integer (text : CodeText) : Except Fault Int :=
  match withoutUnderscores text with
  | .char '-' :: body => do return -(← magnitude body)
  | .char '+' :: body => magnitude body
  | body => magnitude body

/-- The number that parts stand for in base sixty, the last part first, where the first of them has the
given weight. -/
def sexagesimal : Nat → Binary64 → List Binary64 → Except Fault Binary64
  | _, total, [] => .ok total
  | weight, total, x :: rest =>
    match Binary64.ofInteger? weight with
    | some w => sexagesimal (60 * weight) (total.add (x.mul w)) rest
    | none => .error .hugeWeight

/-- A real number without its sign: one of two names, a decimal number, or one in base sixty. -/
def realMagnitude (body : CodeText) : Except Fault Binary64 :=
  if body = ".inf" then .ok (.infinite false)
  else if body = ".nan" then .ok .notANumber
  else do
    match ← parts readReal body with
    | [x] => return x
    | xs => sexagesimal 1 (.finite false 0 0) xs.reverse

def real (text : CodeText) : Except Fault Binary64 :=
  match (withoutUnderscores text).mapRuns Text.lower with
  | [] => .error .emptyNumeral
  | .char '-' :: body => do return (← realMagnitude body).negate
  | .char '+' :: body => realMagnitude body
  | body => realMagnitude body

/-! ## Words, moments and bytes -/

/-- A truth value, in any mixture of cases. -/
def truth (text : CodeText) : Except Fault Bool :=
  let word := text.mapRuns Text.lower
  match word.toString?.bind (List.lookup · truthWords) with
  | some value => .ok value
  | none => .error (.noTruth word)

/-- A moment, with a line feed at its end or without. -/
def moment? (text : CodeText) : Except Fault Moment :=
  match text.toString?.bind fun s => momentText? (chomp s.toList) with
  | some m => (Moment.ofText m).mapError .moment
  | none => .error .noMoment

/-- The value of a character of base 64. -/
def base64Value? (c : Char) : Option Nat :=
  if c.isUpper then some (c.toNat - 65)
  else if c.isLower then some (c.toNat - 71)
  else if c.isDigit then some (c.toNat + 4)
  else if c = '+' then some 62
  else if c = '/' then some 63
  else none

/-- The values of the characters of a text in base 64, up to the padding that completes a group of
four, and whether the last group is complete. Other characters are passed over. -/
def base64Values : List Char → List Nat → Nat → List Nat × Bool
  | [], acc, _ => (acc, acc.length % 4 = 0)
  | c :: rest, acc, pads =>
    if c = '=' then
      if 2 ≤ acc.length % 4 ∧ 4 ≤ acc.length % 4 + pads + 1 then (acc, true)
      else base64Values rest acc (if 2 ≤ acc.length % 4 then pads + 1 else pads)
    else
      match base64Value? c with
      | some v => base64Values rest (acc ++ [v]) 0
      | none => base64Values rest acc pads

/-- The bytes of values of six bits each. -/
def bytesOf : List Nat → List Nat
  | a :: b :: c :: d :: rest =>
    (a * 4 + b / 16) :: (b % 16 * 16 + c / 4) :: (c % 4 * 64 + d) :: bytesOf rest
  | [a, b, c] => [a * 4 + b / 16, b % 16 * 16 + c / 4]
  | [a, b] => [a * 4 + b / 16]
  | _ => []

/-- The bytes that a text in base 64 stands for, which has to be ASCII. -/
def binary (text : CodeText) : Except Fault (List Nat) :=
  let (values, complete) := base64Values text.shadow [] 0
  if complete && text.all (·.toNat < 128) then .ok (bytesOf values) else .error .malformed

/-- What a text stands for by its tag. -/
def ofText (tag : Tag) (text : CodeText) : Except Fault Atom :=
  match tag with
  | .null => .ok .null
  | .bool => .bool <$> truth text
  | .int => .int <$> integer text
  | .float => .float <$> real text
  | .binary => .bytes <$> binary text
  | .timestamp => .moment <$> moment? text
  | .str => .ok (.str text)
  | _ => .error .malformed

end DeclaredSchema.Yaml.Atom
