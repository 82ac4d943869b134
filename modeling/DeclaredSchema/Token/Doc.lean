import DeclaredSchema.Text.Blank

/-!
# Documentation text

A documentation comment opens with two stars, and its lines may start with a star, the gutter. Its
text is what is left without gutters and margins, up to the first line that starts with an at sign.
Such lines carry annotations, which are not part of the text.

## Main definitions

* `Doc.withoutGutter` — one line of a comment
* `Doc.clean` — the text of a whole comment, if there is any
-/

namespace DeclaredSchema.Doc

open Text

/-- A line without its margins and without a star at its start. -/
def withoutGutter (line : List Char) : List Char :=
  match trim line with
  | '*' :: rest => trim rest
  | bare => bare

/-- Whether a line without its gutter is an annotation. -/
def startsWithAt (line : List Char) : Bool := line.head? = some '@'

/-- The lines of text in a comment: those before the first annotation, without gutters. -/
def textLines (body : List Char) : List (List Char) :=
  ((lines body).map withoutGutter).takeWhile fun line => !startsWithAt line

/-- The text of a comment with the given body; `none` when only white space remains. -/
def clean (body : List Char) : Option String :=
  match trim (joinLines (textLines body)) with
  | [] => none
  | text => some (String.ofList text)

example : clean "*\n * One\n *\n *   two\n * @since 3\n * more\n ".toList = some "One\n\ntwo" := by
  decide +kernel

example : clean " \n * \n ".toList = none := by decide +kernel

end DeclaredSchema.Doc
