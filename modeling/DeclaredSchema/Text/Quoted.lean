import DeclaredSchema.Text.Printable

/-!
# Quoted text in messages

Messages show a text between quotes so that it can be read back: the single quote, unless the text
holds a single quote and no double one. The quote itself and the backslash are escaped, line feed,
carriage return and tab have short escapes, and every other character that is not printable is
written by its code point in two, four or eight hexadecimal digits.

## Main definitions

* `quoteMark` — the quote that encloses a text
* `escape` — one character between given quotes
* `quoted` — the whole text
-/

namespace DeclaredSchema.Text

/-- The hexadecimal digit of value `n`, in lower case. -/
def hexDigit (n : Nat) : Char := if n < 10 then Char.ofNat (48 + n) else Char.ofNat (87 + n)

/-- The last `width` hexadecimal digits of `n`, most significant first. -/
def hexDigits : Nat → Nat → List Char
  | 0, _ => []
  | width + 1, n => hexDigit (n / Nat.pow 16 width % 16) :: hexDigits width n

/-- The quote that encloses `text`. -/
def quoteMark (text : List Char) : Char :=
  if text.contains '\'' && !text.contains '"' then '"' else '\''

/-- The code point of `c` as an escape, as short as it can be. -/
def codePointEscape (c : Char) : List Char :=
  if c.toNat ≤ 0xFF then '\\' :: 'x' :: hexDigits 2 c.toNat
  else if c.toNat ≤ 0xFFFF then '\\' :: 'u' :: hexDigits 4 c.toNat
  else '\\' :: 'U' :: hexDigits 8 c.toNat

/-- How `c` is written between two `mark`s. -/
def escape (mark c : Char) : List Char :=
  if c = mark ∨ c = '\\' then ['\\', c]
  else if c = '\n' then ['\\', 'n']
  else if c = '\r' then ['\\', 'r']
  else if c = '\t' then ['\\', 't']
  else if isPrintable c then [c]
  else codePointEscape c

/-- A text between quotes, as messages show it. -/
def quoted (text : List Char) : List Char :=
  let mark := quoteMark text
  mark :: text.flatMap (escape mark) ++ [mark]

/-- A string between quotes, as messages show it. -/
def quote (text : String) : String := String.ofList (quoted text.toList)

example : quoted "it's".toList = "\"it's\"".toList ∧ quoted "a\\\n".toList = "'a\\\\\\n'".toList := by
  decide +kernel

example : quoted "\u00a0\u200b".toList = "'\\xa0\\u200b'".toList := by decide +kernel

end DeclaredSchema.Text
