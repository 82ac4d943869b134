import DeclaredSchema.Text.Blank
import DeclaredSchema.Text.CodeText

/-!
# Strings in schema text

The schema language has two forms of strings. A quoted string escapes what cannot stand in it. A
block string stands between three quotes, keeps its lines as they are, and escapes only three quotes
in a row. Descriptions are written as block strings when reading them back yields the same text.

A text of code points takes the form that its shadow has, and its halves stay as they are.

## Main definitions

* `Sdl.quotedString`, `Sdl.blockString` — the two forms
* `Sdl.isBlockSafe` — whether a block string reads back as the same text
* `Sdl.quotedText`, `Sdl.descriptionText` — the forms of texts of code points
-/

namespace DeclaredSchema.Sdl

open Text

/-! ## Quoted strings -/

/-- A hexadecimal digit in upper case. -/
def upperHexDigit (n : Nat) : Char := (hexDigit n).toUpper

/-- How a character is written in a quoted string: the controls, the quote and the backslash are
escaped. -/
def escapeChar (c : Char) : List Char :=
  if c = '"' then ['\\', '"']
  else if c = '\\' then ['\\', '\\']
  else if c = '\x08' then ['\\', 'b']
  else if c = '\t' then ['\\', 't']
  else if c = '\n' then ['\\', 'n']
  else if c = '\x0c' then ['\\', 'f']
  else if c = '\r' then ['\\', 'r']
  else if c.toNat < 0x20 ∨ (0x7F ≤ c.toNat ∧ c.toNat < 0xA0) then
    ['\\', 'u', '0', '0', upperHexDigit (c.toNat / 16), upperHexDigit (c.toNat % 16)]
  else [c]

def quotedString (text : List Char) : List Char := '"' :: text.flatMap escapeChar ++ ['"']

/-! ## Block strings -/

/-- Three quotes in a row with a backslash before them. -/
def escapeTripleQuotes : List Char → List Char
  | '"' :: '"' :: '"' :: rest => '\\' :: '"' :: '"' :: '"' :: escapeTripleQuotes rest
  | c :: rest => c :: escapeTripleQuotes rest
  | [] => []

/-- Blanks that can indent a line. -/
def isIndent (c : Char) : Bool := c = ' ' || c = '\t'

def startsIndented : List Char → Bool
  | c :: _ => isIndent c
  | [] => false

/-- Whether a text ends with another. -/
def endsWith (ending text : List Char) : Bool := ending.isSuffixOf text

/-- Whether a block string is written over several lines: unless it is one line of at most seventy
characters that does not end in a quote or a backslash. -/
def isSpread (text : List Char) : Bool :=
  1 < (lines (escapeTripleQuotes text)).length || 70 < text.length ||
    endsWith ['"'] text || endsWith ['\\'] text

/-- What stands before and behind the lines of a block string. A single line that starts with a
blank stays behind the opening quotes, because the blank would be lost on a line of its own. -/
def blockMarks (text : List Char) : List Char × List Char :=
  let single := (lines (escapeTripleQuotes text)).length ≤ 1
  let before := if isSpread text && !(single && startsIndented text) then ['\n'] else []
  let after := if isSpread text then ['\n'] else []
  ("\"\"\"".toList ++ before, after ++ "\"\"\"".toList)

/-- A block string. -/
def blockString (text : List Char) : List Char :=
  let (opening, closing) := blockMarks text
  opening ++ escapeTripleQuotes text ++ closing

/-- What has been seen of a text while checking that it can be a block string. -/
structure BlockScan where
  emptyLine : Bool
  indented : Bool
  commonIndent : Bool
  seenLine : Bool

/-- The rest of the check: no control character but tab and line feed, no empty line at either end,
and no indentation that all lines share. -/
def blockSafeFrom (s : BlockScan) : List Char → Bool
  | [] => !s.emptyLine && !(s.commonIndent && s.seenLine)
  | c :: rest =>
    if c = '\n' then
      if s.emptyLine && !s.seenLine then false
      else blockSafeFrom ⟨true, false, s.commonIndent, true⟩ rest
    else if isIndent c then blockSafeFrom { s with indented := s.indented || s.emptyLine } rest
    else if c.toNat ≤ 0x0F then false
    else blockSafeFrom ⟨false, s.indented, s.commonIndent && s.indented, s.seenLine⟩ rest

/-- Whether a block string with this text reads back as the text. -/
def isBlockSafe (text : List Char) : Bool :=
  text.isEmpty || blockSafeFrom ⟨true, false, true, false⟩ text

/-! ## Texts of code points -/

/-- A quoted string. -/
def quotedText (text : CodeText) : CodeText :=
  .char '"' :: text.mapRuns (List.flatMap escapeChar) ++ [.char '"']

/-- A description: a block string where that is safe, else a quoted string. -/
def descriptionText (text : CodeText) : CodeText :=
  if isBlockSafe text.shadow then
    let (opening, closing) := blockMarks text.shadow
    .ofChars opening ++ text.mapRuns escapeTripleQuotes ++ .ofChars closing
  else quotedText text

example : quotedString "a\"\n\x01\x7f".toList = "\"a\\\"\\n\\u0001\\u007F\"".toList := by
  decide +kernel

example : blockString "two\nlines".toList = "\"\"\"\ntwo\nlines\n\"\"\"".toList ∧
    blockString "one".toList = "\"\"\"one\"\"\"".toList := by
  decide +kernel

end DeclaredSchema.Sdl
