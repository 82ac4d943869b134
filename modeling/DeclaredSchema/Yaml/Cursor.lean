/-!
# A place in a YAML text

Indentation and the length of keys matter in YAML, so the place in a text is counted along: the
characters read, the line, and the column. A byte order mark takes no column.

## Main definitions

* `Yaml.isBreak`, `Yaml.isGap` — line breaks, and what can stand between two words
* `Yaml.Cursor` — a place with the text that follows
* `Yaml.Cursor.advance`, `Yaml.Cursor.lineBreak?` — one character on, and one line break on
-/

namespace DeclaredSchema.Yaml

/-- The characters that end a line. -/
def isBreak (c : Char) : Bool :=
  c = '\n' || c = '\r' || c = '\x85' || c = '\u2028' || c = '\u2029'

/-- Blanks and line breaks. -/
def isGap (c : Char) : Bool := c = ' ' || c = '\t' || isBreak c

/-- Whether a word can end before this character, or before the end of the text. -/
def endsWord : Option Char → Bool
  | none => true
  | some c => isGap c

/-- Whether a line ends before this character, or before the end of the text. -/
def endsLine : Option Char → Bool
  | none => true
  | some c => isBreak c

/-- Whether only a space or the end of a line stands here. -/
def endsItem : Option Char → Bool
  | none => true
  | some c => c = ' ' || isBreak c

/-- A place in a text. Lines and columns are counted from zero. -/
structure Cursor where
  rest : List Char
  index : Nat
  line : Nat
  column : Nat

namespace Cursor

/-- The start of a text. -/
def start (text : List Char) : Cursor := ⟨text, 0, 0, 0⟩

/-- The character `k` places ahead. -/
def peek (c : Cursor) (k : Nat) : Option Char := c.rest[k]?

/-- The next character. -/
def next (c : Cursor) : Option Char := c.rest.head?

/-- Whether the next character is `x`. -/
def sees (c : Cursor) (x : Char) : Bool := c.next = some x

/-- One character on. A carriage return before a line feed does not end the line yet. -/
def advance (c : Cursor) : Cursor :=
  match c.rest with
  | [] => c
  | x :: rest =>
    let ends := isBreak x && !(x = '\r' && rest.head? = some '\n')
    { rest
      index := c.index + 1
      line := if ends then c.line + 1 else c.line
      column := if ends then 0 else if x = '\ufeff' then c.column else c.column + 1 }

/-- A number of characters on. -/
def advanceBy : Nat → Cursor → Cursor
  | 0, c => c
  | n + 1, c => advanceBy n c.advance

/-- The characters from here on that satisfy `p`. -/
def run (p : Char → Bool) (c : Cursor) : List Char := c.rest.takeWhile p

/-- Past the characters that satisfy `p`. -/
def skip (p : Char → Bool) (c : Cursor) : Cursor := c.advanceBy (c.run p).length

/-- Past the spaces that stand here. -/
def skipSpaces (c : Cursor) : Cursor := c.skip (· = ' ')

/-- Past a comment that starts here. -/
def skipComment (c : Cursor) : Cursor := if c.sees '#' then c.skip fun x => !isBreak x else c

/-- The line break that stands here, as it is read, with the place behind it. The two special
separators stay as they are, every other break is a line feed. -/
def lineBreak? (c : Cursor) : Option (Char × Cursor) :=
  match c.rest with
  | '\r' :: '\n' :: _ => some ('\n', c.advanceBy 2)
  | x :: _ =>
    if x = '\u2028' ∨ x = '\u2029' then some (x, c.advance)
    else if isBreak x then some ('\n', c.advance)
    else none
  | [] => none

/-- Past the line break that stands here, if one does. -/
def skipBreak (c : Cursor) : Cursor :=
  match c.lineBreak? with
  | some (_, after) => after
  | none => c

/-- Whether three equal characters and the end of a word stand here. -/
def seesTriple (x : Char) (c : Cursor) : Bool := c.rest.take 3 = [x, x, x] && endsWord (c.peek 3)

/-- Whether a line stands here that separates documents. -/
def seesSeparator (c : Cursor) : Bool := c.seesTriple '-' || c.seesTriple '.'

theorem length_advance (c : Cursor) : c.advance.rest.length = c.rest.length - 1 := by
  unfold advance
  split <;> simp_all

theorem length_advanceBy (n : Nat) (c : Cursor) :
    (c.advanceBy n).rest.length = c.rest.length - n := by
  induction n generalizing c with
  | zero => rfl
  | succ n ih => rw [advanceBy, ih, length_advance]; omega

theorem length_skip_le (p : Char → Bool) (c : Cursor) :
    (c.skip p).rest.length ≤ c.rest.length := by
  rw [skip, length_advanceBy]; omega

theorem length_skipComment_le (c : Cursor) : c.skipComment.rest.length ≤ c.rest.length := by
  unfold skipComment
  split
  · exact length_skip_le _ c
  · exact Nat.le_refl _

/-- A place where a character stands is not the end. -/
theorem length_advance_lt_of_sees {c : Cursor} {x : Char} (h : c.sees x = true) :
    c.advance.rest.length < c.rest.length := by
  rw [length_advance]
  cases hc : c.rest with
  | nil => simp [sees, next, hc] at h
  | cons y rest => simp

/-- A line break is not empty. -/
theorem length_lt_of_lineBreak? {c after : Cursor} {x : Char} (h : c.lineBreak? = some (x, after)) :
    after.rest.length < c.rest.length := by
  unfold lineBreak? at h
  split at h
  · next hc =>
    obtain ⟨-, rfl⟩ := h
    simp only [length_advanceBy, hc, List.length_cons]
    omega
  · next hc =>
    have hlt : c.advance.rest.length < c.rest.length := by simp [length_advance, hc]
    split at h
    · obtain ⟨-, rfl⟩ := h
      exact hlt
    · split at h
      · obtain ⟨-, rfl⟩ := h
        exact hlt
      · cases h
  · cases h

end Cursor

end DeclaredSchema.Yaml
