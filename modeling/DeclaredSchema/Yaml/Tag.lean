import DeclaredSchema.Yaml.Moment
import DeclaredSchema.Yaml.Scalar

/-!
# Tags

Every node of a document has a tag that says what it stands for. A tag that is not written follows
from the node: for a plain scalar from the form of its text, for any other node from its sort.

A line feed at the end of a text does not belong to its form.

## Main definitions

* `Yaml.Tag`, `Yaml.Tag.ofUri` — the tags
* `Yaml.Tag.ofPlain` — what a plain scalar stands for
-/

namespace DeclaredSchema.Yaml

/-- What a node stands for. -/
inductive Tag where
  | null | bool | int | float | binary | timestamp | omap | pairs | set | str | seq | map
  | merge | value | unknown
  deriving DecidableEq, Repr

namespace Tag

/-- The tags with their names. -/
def names : List (String × Tag) := [
  ("null", null), ("bool", bool), ("int", int), ("float", float), ("binary", binary),
  ("timestamp", timestamp), ("omap", omap), ("pairs", pairs), ("set", set), ("str", str),
  ("seq", seq), ("map", map), ("merge", merge), ("value", value)]

/-- What all tags of the language start with. -/
def core : String := "tag:yaml.org,2002:"

/-- The tag of a URI. -/
def ofUri (uri : String) : Tag :=
  ((names.find? fun (name, _) => core ++ name = uri).map Prod.snd).getD unknown

end Tag

/-! ## Plain scalars -/

/-- The part of a text behind its sign. -/
def unsigned : List Char → List Char
  | '-' :: rest => rest
  | '+' :: rest => rest
  | text => text

/-- Digits and underscores. -/
def isDigitPart (c : Char) : Bool := c.isDigit || c = '_'

/-- A text cut at each `mark`. -/
def cutAt {α : Type} [DecidableEq α] (mark : α) : List α → List (List α)
  | [] => [[]]
  | c :: rest =>
    if c = mark then [] :: cutAt mark rest
    else
      match cutAt mark rest with
      | [] => [[c]]
      | part :: parts => (c :: part) :: parts

/-- One digit, or two of which the first is below six. -/
def isSixtieth : List Char → Bool
  | [a] => a.isDigit
  | [a, b] => a.isDigit && a ≤ '5' && b.isDigit
  | _ => false

/-- Digits and underscores that start with a digit. -/
def isDigitRun : List Char → Bool
  | [] => false
  | c :: rest => c.isDigit && rest.all isDigitPart

def isIntegerForm (text : List Char) : Bool :=
  match unsigned text with
  | '0' :: 'b' :: rest => !rest.isEmpty && rest.all fun c => c = '0' || c = '1' || c = '_'
  | '0' :: 'x' :: rest => !rest.isEmpty && rest.all fun c => (Scalar.hexValue? c).isSome || c = '_'
  | '0' :: rest => rest.all fun c => ('0' ≤ c && c ≤ '7') || c = '_'
  | body =>
    match cutAt ':' body with
    | first :: rest => isDigitRun first && rest.all isSixtieth
    | [] => false

/-- An exponent: nothing, or a letter, a sign and digits. -/
def isExponent : List Char → Bool
  | [] => true
  | e :: sign :: digits =>
    (e = 'e' || e = 'E') && (sign = '-' || sign = '+') && !digits.isEmpty && digits.all Char.isDigit
  | _ => false

/-- What follows the point of a number: digits and underscores, and perhaps an exponent. -/
def isFraction (text : List Char) : Bool := isExponent (text.dropWhile isDigitPart)

/-- A number in base sixty with a fraction. -/
def isSexagesimal (body : List Char) : Bool :=
  let (whole, fraction) := body.span (· ≠ '.')
  match cutAt ':' whole with
  | first :: second :: rest =>
    isDigitRun first && (second :: rest).all isSixtieth && !fraction.isEmpty &&
      (fraction.drop 1).all isDigitPart
  | _ => false

def isRealForm (text : List Char) : Bool :=
  let body := unsigned text
  match body with
  | '.' :: rest =>
    [".inf", ".Inf", ".INF"].contains (String.ofList body) ||
      [".nan", ".NaN", ".NAN"].contains (String.ofList text) ||
      (text = body && isDigitRun (rest.takeWhile isDigitPart) && isFraction rest)
  | _ =>
    let (whole, fraction) := body.span isDigitPart
    (isDigitRun whole && fraction.head? = some '.' && isFraction (fraction.drop 1)) ||
      isSexagesimal body

/-- Dates without a time need two digits for the month and the day, to be recognised in plain
scalars. -/
def isMomentForm (text : List Char) : Bool :=
  match momentText? text with
  | some m => m.time.isSome || text.length = 10
  | none => false

/-- The words for truth values, in lower case. -/
def truthWords : List (String × Bool) :=
  [("yes", true), ("no", false), ("true", true), ("false", false), ("on", true), ("off", false)]

/-- The spellings of a word that are recognised: lower case, upper case, and a capital first. -/
def spellings (word : String) : List String := [word, word.toUpper, word.capitalize]

/-- A text without the line feed at its end. -/
def chomp (text : List Char) : List Char :=
  if text.getLast? = some '\n' then text.dropLast else text

/-- Texts that would be tags, names and aliases of their own. They stand for nothing. -/
def bareMarks : List String := ["!", "&", "*"]

/-- What a plain scalar with this string stands for. -/
def Tag.ofString (text : String) : Tag :=
  let cs := chomp text.toList
  let form := String.ofList cs
  if truthWords.any fun (word, _) => (spellings word).contains form then .bool
  else if isRealForm cs then .float
  else if isIntegerForm cs then .int
  else if form = "<<" then .merge
  else if text = "" ∨ form = "~" ∨ (spellings "null").contains form then .null
  else if isMomentForm cs then .timestamp
  else if form = "=" then .value
  else if bareMarks.contains form then .unknown
  else .str

/-- What a plain scalar stands for. No form has room for half a character. -/
def Tag.ofPlain (text : CodeText) : Tag := (text.toString?.map Tag.ofString).getD .str

end DeclaredSchema.Yaml
