import DeclaredSchema.Text.Quoted

/-!
# Texts of code points

An escape in a YAML text may name any code point. Most code points are characters. The others are
the halves of surrogate pairs, which stand for nothing alone and are not joined here: a half is kept
as it is, is shown as an escape between quotes, and cannot be encoded.

Every string is a text of code points. What concerns classes of characters is decided on the shadow
of a text, in which each half is the replacement character, which belongs to no class that counts.
So a text and its shadow have the same length, and the same lines.

## Main definitions

* `CodePoint`, `CodeText` — characters and halves, and texts of them
* `CodeText.ofString`, `CodeText.toString?` — strings as texts, and texts as strings
* `CodeText.shadow` — the characters that a text has for a reader who sees no halves
* `CodeText.mapRuns` — a change of the characters that leaves the halves alone
* `CodeText.quote` — a text between quotes, as messages show it
* `CodeText.encode` — the string to be written to a file
-/

namespace DeclaredSchema

/-! ## Code points -/

/-- A character, or a half of a surrogate pair by its distance from the first of them. -/
inductive CodePoint where
  | char (c : Char)
  | half (distance : Fin 0x800)
  deriving DecidableEq, Repr

namespace CodePoint

def toNat : CodePoint → Nat
  | char c => c.toNat
  | half distance => 0xD800 + distance

/-- The code point of a number; there are none beyond the characters. -/
def ofNat? (n : Nat) : Option CodePoint :=
  if n.isValidChar then some (char (Char.ofNat n))
  else if h : n - 0xD800 < 0x800 then some (half ⟨n - 0xD800, h⟩)
  else none

def toChar? : CodePoint → Option Char
  | char c => some c
  | half _ => none

def isHalf : CodePoint → Bool
  | char _ => false
  | half _ => true

/-- A character as it is, and the replacement character for a half. -/
def shadow : CodePoint → Char
  | char c => c
  | half _ => '\ufffd'

/-- How a code point is written between two `mark`s. -/
def escape (mark : Char) : CodePoint → List Char
  | char c => Text.escape mark c
  | half distance => '\\' :: 'u' :: Text.hexDigits 4 (0xD800 + distance)

end CodePoint

/-! ## Texts -/

/-- A text of code points. -/
abbrev CodeText := List CodePoint

/-- Why a text cannot be encoded: the first halves in a row, and how many code points come before
them. -/
structure EncodingFault where
  position : Nat
  halves : CodeText
  deriving DecidableEq, Repr

namespace CodeText

def ofChars (cs : List Char) : CodeText := cs.map .char

def ofString (s : String) : CodeText := ofChars s.toList

instance : Coe String CodeText := ⟨ofString⟩

/-- The string with this text; none if there is a half in it. -/
def toString? (text : CodeText) : Option String := (text.mapM CodePoint.toChar?).map String.ofList

/-- The text with the replacement character in the place of each half. -/
def shadow (text : CodeText) : List Char := text.map CodePoint.shadow

/-- Whether a text comes before another, by the numbers of their code points. -/
def before (s t : CodeText) : Bool := s.map CodePoint.toNat < t.map CodePoint.toNat

/-- Changes the characters between halves, where `run` holds those before this place in reverse. -/
def mapRunsFrom (f : List Char → List Char) (run : List Char) : CodeText → CodeText
  | [] => ofChars (f run.reverse)
  | .char c :: rest => mapRunsFrom f (c :: run) rest
  | .half distance :: rest => ofChars (f run.reverse) ++ .half distance :: mapRunsFrom f [] rest

/-- The text with `f` applied to each run of characters between halves. -/
def mapRuns (f : List Char → List Char) (text : CodeText) : CodeText := mapRunsFrom f [] text

/-- A text between quotes, as messages show it. -/
def quoted (text : CodeText) : List Char :=
  let mark := Text.quoteMark text.shadow
  mark :: text.flatMap (CodePoint.escape mark) ++ [mark]

/-- A text between quotes, as a string. -/
def quote (text : CodeText) : String := String.ofList text.quoted

/-- Texts put together with `separator` between neighbours. -/
def intercalate (separator : CodeText) (parts : List CodeText) : CodeText :=
  List.intercalate separator parts

/-- The string to be written to a file. -/
def encode (text : CodeText) : Except EncodingFault String :=
  match text.toString? with
  | some s => .ok s
  | none =>
    let before := text.takeWhile (!·.isHalf)
    .error ⟨before.length, (text.drop before.length).takeWhile (·.isHalf)⟩

/-! ## Texts without halves -/

@[simp] theorem ofChars_nil : ofChars [] = [] := rfl

@[simp] theorem ofChars_cons (c : Char) (cs : List Char) :
    ofChars (c :: cs) = .char c :: ofChars cs := rfl

@[simp] theorem shadow_ofChars (cs : List Char) : shadow (ofChars cs) = cs := by
  simp [shadow, ofChars, Function.comp_def, CodePoint.shadow]

@[simp] theorem shadow_ofString (s : String) : shadow (ofString s) = s.toList := shadow_ofChars _

@[simp] theorem toString?_ofString (s : String) : toString? (ofString s) = some s := by
  have h (cs : List Char) : (cs.map CodePoint.char).mapM CodePoint.toChar? = some cs := by
    induction cs with
    | nil => rfl
    | cons c rest ih => simp [ih, CodePoint.toChar?]
  simp [toString?, ofString, ofChars, h]

end CodeText

namespace EncodingFault

/-- Where the halves stand: one by its escape, several by their first and last place. -/
def message (f : EncodingFault) : String :=
  match f.halves with
  | [x] =>
    let shown := String.ofList (x.escape '\'')
    s!"'utf-8' codec can't encode character '{shown}' in position {f.position}: " ++
    "surrogates not allowed"
  | halves =>
    let last := f.position + halves.length - 1
    s!"'utf-8' codec can't encode characters in position {f.position}-{last}: " ++
    "surrogates not allowed"

end EncodingFault

example : CodeText.quote [.half 0x3D, .char 'a', .half 0x600] = "'\\ud83da\\ude00'" := by
  decide +kernel

example : CodeText.encode [.char 'a', .half 0x3D, .half 0x600, .half 0] =
    .error ⟨1, [.half 0x3D, .half 0x600, .half 0]⟩ := rfl

end DeclaredSchema
