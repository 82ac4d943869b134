import DeclaredSchema.Text.CharRanges

/-!
# Blanks and line breaks

Documentation comments are cut into lines and trimmed by Unicode's notion of white space, which is
wider than the blanks between tokens: the separator controls, NEL and the no-break space count, the
zero-width space and the byte order mark do not.

## Main definitions

* `isBlank`, `trim` — white space, and a text without it at either end
* `isLineBreak`, `lines` — line breaks, and a text cut at them
* `joinLines` — lines put together with line feeds
* `unifyNewlines` — every carriage return read as a line feed
-/

namespace DeclaredSchema.Text

/-- Unicode white space, with the four separator controls. -/
def blanks : CharRanges := [
  (0x9, 0xD), (0x1C, 0x20), (0x85, 0x85), (0xA0, 0xA0), (0x1680, 0x1680), (0x2000, 0x200A),
  (0x2028, 0x2029), (0x202F, 0x202F), (0x205F, 0x205F), (0x3000, 0x3000)]

/-- The characters that end a line. -/
def lineBreaks : CharRanges := [(0xA, 0xD), (0x1C, 0x1E), (0x85, 0x85), (0x2028, 0x2029)]

/-- Whether `c` is white space. -/
def isBlank (c : Char) : Bool := blanks.contains c

/-- Whether `c` ends a line. -/
def isLineBreak (c : Char) : Bool := lineBreaks.contains c

/-- A text without the white space at its end. -/
def trimRight (text : List Char) : List Char := (text.reverse.dropWhile isBlank).reverse

/-- A text without the white space at its two ends. -/
def trim (text : List Char) : List Char := trimRight (text.dropWhile isBlank)

/-- The lines of a text without their breaks. A carriage return and a line feed together are one
break, and a break at the end of the text starts no further line. -/
def lines : List Char → List (List Char)
  | [] => []
  | '\r' :: '\n' :: rest => [] :: lines rest
  | c :: rest =>
    if isLineBreak c then [] :: lines rest
    else match lines rest with
      | [] => [[c]]
      | line :: more => (c :: line) :: more

/-- Lines put together with a line feed between neighbours. -/
def joinLines (parts : List (List Char)) : List Char := List.intercalate ['\n'] parts

/-- Reads a carriage return, with the line feed that may follow it, as one line feed. -/
def unifyNewlines : List Char → List Char
  | [] => []
  | '\r' :: '\n' :: rest => '\n' :: unifyNewlines rest
  | c :: rest => (if c = '\r' then '\n' else c) :: unifyNewlines rest

@[simp] theorem trim_nil : trim [] = [] := rfl

@[simp] theorem lines_nil : lines [] = [] := rfl

@[simp] theorem unifyNewlines_nil : unifyNewlines [] = [] := rfl

example : lines "a\r\nb\n\nc\n".toList = ["a".toList, "b".toList, [], "c".toList] := by decide +kernel

example : trim "\u00a0 x\u200b\n".toList = "x\u200b".toList := by decide +kernel

end DeclaredSchema.Text
