import DeclaredSchema.Yaml.Cursor
import DeclaredSchema.Yaml.Fault

/-!
# Scalars in a YAML text

A scalar is written in one of five styles: plain, between single or double quotes, and as a block
that keeps its line breaks or folds them. Each is read here into the text it stands for.

A line break inside a plain or quoted scalar is read as a space, and empty lines as line feeds.
Between double quotes, an escape may name a code point that is no character.

## Main definitions

* `Yaml.Scalar.plain`, `Yaml.Scalar.quoted`, `Yaml.Scalar.block` — reading a scalar of a style
-/

namespace DeclaredSchema.Yaml.Scalar

/-- A text that was read, with the place behind it. -/
abbrev Read := List Char × Cursor

/-- A text of code points that was read, with the place behind it. -/
abbrev CodeRead := CodeText × Cursor

/-! ## Line breaks -/

/-- What a line break and the empty lines behind it are read as. -/
def fold (lineBreak : Char) (breaks : List Char) : List Char :=
  if lineBreak ≠ '\n' then lineBreak :: breaks
  else if breaks.isEmpty then [' ']
  else breaks

/-! ## Plain scalars -/

/-- Characters with a meaning in a flow collection. -/
def isFlowIndicator (c : Char) : Bool := [',', '[', ']', '\x7b', '\x7d'].contains c

/-- Whether a colon before this character separates a key from its value. -/
def endsKey (flow : Bool) : Option Char → Bool
  | none => true
  | some c => isGap c || (flow && isFlowIndicator c)

/-- The length of the part of a plain scalar that contains no gap. -/
def plainLength (flow : Bool) : List Char → Nat
  | [] => 0
  | c :: rest =>
    if isGap c || (c = ':' && endsKey flow rest.head?) ||
        (flow && (isFlowIndicator c || c = '?')) then 0
    else plainLength flow rest + 1

/-- The empty lines and the indentation behind a line break; none when a document ends here. What was
read before comes in reverse. -/
def plainBreaks (c : Cursor) (acc : List Char) : Option (List Char) × Cursor :=
  if _hs : c.sees ' ' then plainBreaks c.advance acc
  else
    match _h : c.lineBreak? with
    | some (x, after) =>
      if after.seesSeparator then (none, after) else plainBreaks after (x :: acc)
    | none => (some acc.reverse, c)
termination_by c.rest.length
decreasing_by
  · exact Cursor.length_advance_lt_of_sees _hs
  · exact Cursor.length_lt_of_lineBreak? _h

theorem length_plainBreaks_le (c : Cursor) (acc : List Char) :
    (plainBreaks c acc).2.rest.length ≤ c.rest.length := by
  fun_induction plainBreaks c acc with
  | case1 c acc hs ih => exact Nat.le_trans ih (Nat.le_of_lt (Cursor.length_advance_lt_of_sees hs))
  | case2 c acc hs x after h => exact Nat.le_of_lt (Cursor.length_lt_of_lineBreak? h)
  | case3 c acc hs x after h hsep ih =>
    exact Nat.le_trans ih (Nat.le_of_lt (Cursor.length_lt_of_lineBreak? h))
  | case4 => exact Nat.le_refl _

/-- The gap behind a part of a plain scalar: what it is read as, the place behind it, and whether a
line ended in it. -/
structure PlainGap where
  text : List Char
  cursor : Cursor
  endsLine : Bool

/-- The gap that starts here. If what it is read as is empty, the scalar ends. -/
def plainGap (c : Cursor) : PlainGap :=
  match c.skipSpaces.lineBreak? with
  | none => ⟨c.run (· = ' '), c.skipSpaces, false⟩
  | some (x, after) =>
    if after.seesSeparator then ⟨[], after, true⟩
    else
      match plainBreaks after [] with
      | (some breaks, c) => ⟨fold x breaks, c, true⟩
      | (none, c) => ⟨[], c, true⟩

theorem length_plainGap_le (c : Cursor) : (plainGap c).cursor.rest.length ≤ c.rest.length := by
  have hskip : c.skipSpaces.rest.length ≤ c.rest.length := Cursor.length_skip_le _ c
  unfold plainGap
  split
  · exact hskip
  · next x after h =>
    have hafter := Nat.le_trans (Nat.le_of_lt (Cursor.length_lt_of_lineBreak? h)) hskip
    have hbreaks := length_plainBreaks_le after []
    split
    · exact hafter
    · split <;> simp_all <;> omega

/-- A plain scalar as it is read: its text, in reverse, the place behind it and the gap that follows,
and whether that gap ends a line, so that a key may come next. -/
structure PlainRead where
  reversed : List Char
  cursor : Cursor
  keyMayFollow : Bool

/-- The text in order. -/
def PlainRead.text (r : PlainRead) : List Char := r.reversed.reverse

theorem length_lt_of_plainLength_ne_zero {flow : Bool} {c : Cursor}
    (h : plainLength flow c.rest ≠ 0) :
    (c.advanceBy (plainLength flow c.rest)).rest.length < c.rest.length := by
  rw [Cursor.length_advanceBy]
  cases hc : c.rest with
  | nil => simp [hc, plainLength] at h
  | cons x rest =>
    rw [hc] at h
    rw [List.length_cons]
    omega

/-- The parts of a plain scalar, where `gap` separates the first one from what was read before. In
block context, a line that is indented too little ends the scalar. -/
def plainParts (flow : Bool) (indent : Int) (r : PlainRead) (gap : List Char) : PlainRead :=
  if _hn : r.cursor.sees '#' ∨ plainLength flow r.cursor.rest = 0 then r
  else
    let n := plainLength flow r.cursor.rest
    let reversed := (r.cursor.rest.take n).reverse ++ (gap.reverse ++ r.reversed)
    let g := plainGap (r.cursor.advanceBy n)
    let r : PlainRead := ⟨reversed, g.cursor, g.endsLine⟩
    if g.text.isEmpty || g.cursor.sees '#' || (!flow && (g.cursor.column : Int) < indent) then r
    else plainParts flow indent r g.text
termination_by r.cursor.rest.length
decreasing_by
  exact Nat.lt_of_le_of_lt (length_plainGap_le _)
    (length_lt_of_plainLength_ne_zero fun h => _hn (.inr h))

/-- A plain scalar inside a collection of the given indentation. -/
def plain (flow : Bool) (indent : Int) (c : Cursor) : PlainRead :=
  plainParts flow (indent + 1) ⟨[], c, false⟩ []

/-! ## Quoted scalars -/

/-- What a character behind a backslash stands for. -/
def escapes : List (Char × Char) := [
  ('0', '\x00'), ('a', '\x07'), ('b', '\x08'), ('t', '\t'), ('\t', '\t'), ('n', '\n'),
  ('v', '\x0b'), ('f', '\x0c'), ('r', '\r'), ('e', '\x1b'), (' ', ' '), ('"', '"'), ('\\', '\\'),
  ('/', '/'), ('N', '\x85'), ('_', '\xa0'), ('L', '\u2028'), ('P', '\u2029')]

/-- How many hexadecimal digits follow a character behind a backslash. -/
def codeLength? : Char → Option Nat
  | 'x' => some 2
  | 'u' => some 4
  | 'U' => some 8
  | _ => none

/-- The value of a hexadecimal digit. -/
def hexValue? (c : Char) : Option Nat :=
  if c.isDigit then some (c.toNat - 48)
  else if 'a' ≤ c ∧ c ≤ 'f' then some (c.toNat - 87)
  else if 'A' ≤ c ∧ c ≤ 'F' then some (c.toNat - 55)
  else none

/-- The number that `n` hexadecimal digits at the front of a text stand for. -/
def hexNumber? (n : Nat) (text : List Char) : Option Nat :=
  let digits := text.take n
  if digits.length < n then none
  else (digits.mapM hexValue?).map fun values => values.foldl (fun a v => 16 * a + v) 0

/-- The code in hexadecimal digits that a letter behind a backslash starts, with the place behind it. -/
def codeAt? (c : Cursor) : Option (Nat × Cursor) := do
  let n ← codeLength? (← c.next)
  return (← hexNumber? n c.advance.rest, c.advance.advanceBy n)

/-- The code point of a code. -/
def ofCode (code : Nat) : Except Fault CodePoint :=
  if 0x7FFFFFFF < code then .error .hugeCodePoint
  else
    match CodePoint.ofNat? code with
    | some x => .ok x
    | none => .error .noCodePoint

/-- Spaces and tabs. -/
def isSpaceOrTab (c : Char) : Bool := c = ' ' || c = '\t'

/-- The empty lines behind a line break in a quoted scalar; a document must not end there. What was
read before comes in reverse. -/
def quotedBreaks (c : Cursor) (acc : List Char) : Except Fault Read :=
  if c.seesSeparator then .error .malformed
  else
    match _h : (c.skip isSpaceOrTab).lineBreak? with
    | some (x, after) => quotedBreaks after (x :: acc)
    | none => .ok (acc.reverse, c.skip isSpaceOrTab)
termination_by c.rest.length
decreasing_by
  exact Nat.lt_of_lt_of_le (Cursor.length_lt_of_lineBreak? _h) (Cursor.length_skip_le _ _)

/-- What stands behind a backslash between double quotes. -/
def escaped (c : Cursor) : Except Fault CodeRead :=
  match c.next with
  | none => .error .malformed
  | some x =>
    match escapes.lookup x with
    | some y => .ok ([.char y], c.advance)
    | none =>
      match codeAt? c, c.lineBreak? with
      | some (code, after), _ => (ofCode code).map fun x => ([x], after)
      | none, some (_, after) => do
        let (breaks, c) ← quotedBreaks after []
        return (.ofChars breaks, c)
      | none, none => .error .malformed

/-- A gap in a quoted scalar: blanks as they are, or a line break with the blanks around it. -/
def quotedGap (c : Cursor) : Except Fault Read :=
  let blanks := c.run isSpaceOrTab
  let c := c.skip isSpaceOrTab
  match c.lineBreak? with
  | none => .ok (blanks, c)
  | some (x, after) => do
    let (breaks, c) ← quotedBreaks after []
    return (fold x breaks, c)

/-- The rest of a quoted scalar. What was read before comes in reverse. -/
def quotedRest (mark : Char) : Nat → Cursor → CodeText → Except Fault CodeRead
  | 0, _, _ => .error .malformed
  | fuel + 1, c, acc =>
    match c.next with
    | none => .error .malformed
    | some x =>
      if isGap x then do
        let (gap, c) ← quotedGap c
        quotedRest mark fuel c (.ofChars gap.reverse ++ acc)
      else if x = mark then
        if mark = '\'' && c.peek 1 = some '\'' then
          quotedRest mark fuel (c.advanceBy 2) (.char '\'' :: acc)
        else .ok (acc.reverse, c.advance)
      else if x = '\\' && mark = '"' then do
        let (text, c) ← escaped c.advance
        quotedRest mark fuel c (text.reverse ++ acc)
      else quotedRest mark fuel c.advance (.char x :: acc)

/-- A quoted scalar, with the place before its first quote. -/
def quoted (mark : Char) (c : Cursor) : Except Fault CodeRead :=
  quotedRest mark (c.rest.length + 1) c.advance []

/-! ## Block scalars -/

/-- What becomes of the line breaks at the end of a block: one is kept, all are, or none. -/
inductive Chomping where
  | clip | keep | strip
  deriving DecidableEq, Repr

/-- What the first line of a block says: the chomping, and how far the block is indented. -/
structure Header where
  chomping : Chomping
  increment : Option Nat

def chomping? : Option Char → Option Chomping
  | some '+' => some .keep
  | some '-' => some .strip
  | _ => none

/-- A digit of an indentation, which is not zero. -/
def increment? (x : Option Char) : Except Fault (Option Nat) :=
  match x with
  | some d => if d = '0' then .error .malformed else .ok (if d.isDigit then hexValue? d else none)
  | none => .ok none

/-- The indicators behind the start of a block, in either order. -/
def header (c : Cursor) : Except Fault (Header × Cursor) := do
  match chomping? c.next with
  | some chomping =>
    let c := c.advance
    match ← increment? c.next with
    | some n => return (⟨chomping, some n⟩, c.advance)
    | none => return (⟨chomping, none⟩, c)
  | none =>
    match ← increment? c.next with
    | some n =>
      let c := c.advance
      match chomping? c.next with
      | some chomping => return (⟨chomping, some n⟩, c.advance)
      | none => return (⟨.clip, some n⟩, c)
    | none => return (⟨.clip, none⟩, c)

/-- Past the rest of a line that may only hold a comment. -/
def endOfLine (c : Cursor) : Except Fault Cursor :=
  let c := c.skipSpaces.skipComment
  if endsLine c.next then .ok c.skipBreak else .error .malformed

/-- The empty lines before the first line of a block, with the widest indentation among them and
that line. What was read before comes in reverse. -/
def leadingLines (c : Cursor) (acc : List Char) (widest : Nat) : List Char × Nat × Cursor :=
  if _hs : c.sees ' ' then leadingLines c.advance acc (max widest c.advance.column)
  else
    match _h : c.lineBreak? with
    | some (x, after) => leadingLines after (x :: acc) widest
    | none => (acc.reverse, widest, c)
termination_by c.rest.length
decreasing_by
  · exact Cursor.length_advance_lt_of_sees _hs
  · exact Cursor.length_lt_of_lineBreak? _h

/-- Past the indentation of a line, but not further. -/
def skipIndent (indent : Nat) (c : Cursor) : Cursor :=
  c.advanceBy (min (indent - c.column) (c.run (· = ' ')).length)

theorem length_skipIndent_le (indent : Nat) (c : Cursor) :
    (skipIndent indent c).rest.length ≤ c.rest.length := by
  rw [skipIndent, Cursor.length_advanceBy]; omega

/-- The empty lines between lines of a block. What was read before comes in reverse. -/
def emptyLines (indent : Nat) (c : Cursor) (acc : List Char) : Read :=
  match _h : (skipIndent indent c).lineBreak? with
  | some (x, after) => emptyLines indent after (x :: acc)
  | none => (acc.reverse, skipIndent indent c)
termination_by c.rest.length
decreasing_by
  exact Nat.lt_of_lt_of_le (Cursor.length_lt_of_lineBreak? _h) (length_skipIndent_le _ _)

/-- A block as it is read: its text, in reverse, the line break at the end of its last line, and the
empty lines behind it. -/
structure BlockRead where
  reversed : List Char
  lineBreak : List Char
  breaks : List Char
  cursor : Cursor

/-- Whether a line of a block starts here. -/
def atLine (indent : Nat) (c : Cursor) : Bool := c.column = indent && c.next.isSome

/-- Whether the next character is no blank. -/
def seesText (c : Cursor) : Bool := !(c.sees ' ' || c.sees '\t')

/-- The lines of a block. When it is folded, a break between two lines that both start with text is
a space, or nothing if empty lines follow it. -/
def blockLines (folded : Bool) (indent : Nat) : Nat → BlockRead → BlockRead
  | 0, r => r
  | fuel + 1, r =>
    if !atLine indent r.cursor then r
    else
      let line := r.cursor.run fun x => !isBreak x
      let reversed := line.reverse ++ (r.breaks.reverse ++ r.reversed)
      let starts := seesText r.cursor
      let c := r.cursor.skip fun x => !isBreak x
      let (lineBreak, c) := match c.lineBreak? with
        | some (x, after) => ([x], after)
        | none => ([], c)
      let (breaks, c) := emptyLines indent c []
      if !atLine indent c then ⟨reversed, lineBreak, breaks, c⟩
      else
        let joint :=
          if folded && lineBreak = ['\n'] && starts && seesText c then
            if breaks.isEmpty then [' '] else []
          else lineBreak
        blockLines folded indent fuel ⟨joint.reverse ++ reversed, lineBreak, breaks, c⟩

/-- A block scalar inside a collection of the given indentation, with the place before its
indicator. -/
def block (folded : Bool) (indent : Int) (c : Cursor) : Except Fault Read := do
  let (h, c) ← header c.advance
  if !endsItem c.next then throw .malformed
  let c ← endOfLine c
  let least := max 1 (indent + 1).toNat
  let (breaks, indent, c) := match h.increment with
    | none =>
      let (breaks, widest, c) := leadingLines c [] 0
      (breaks, max least widest, c)
    | some n =>
      let indent := least + n - 1
      let (breaks, c) := emptyLines indent c []
      (breaks, indent, c)
  let r := blockLines folded indent (c.rest.length + 1) ⟨[], [], breaks, c⟩
  let ending := match h.chomping with
    | .strip => []
    | .clip => r.lineBreak
    | .keep => r.lineBreak ++ r.breaks
  return (r.reversed.reverse ++ ending, r.cursor)

end DeclaredSchema.Yaml.Scalar
