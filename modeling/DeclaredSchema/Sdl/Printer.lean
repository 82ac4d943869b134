import DeclaredSchema.Sdl.Default

/-!
# Schema text

A schema is shown type by type, in the order of its walk and with an empty line between neighbours;
the built-in scalars are not shown. A description stands in the lines above what it describes, with
the same indentation, and an empty line separates it from what comes before in the same block.
Arguments stand in one line unless one of them is described; an empty text does not count there.

Showing a default can fail, and then there is no text at all. What users say of their own scalars is
the one part that need not be made of characters.

## Main definitions

* `Schema.printType` — the text of one type
* `Schema.print` — the text of a schema
-/

namespace DeclaredSchema

namespace Sdl

/-- A text with an indentation behind each line feed. -/
def indentLines (indent : CodeText) (text : CodeText) : CodeText :=
  text.flatMap fun x => if x = .char '\n' then x :: indent else [x]

/-- The lines of a description, with the line feed that ends them. A description within a block
that does not come first there follows an empty line. -/
def description (indent : String) (first : Bool) (text : Option CodeText) : CodeText :=
  match text with
  | none => ""
  | some text =>
    let before := if indent.isEmpty || first then indent else "\n" ++ indent
    before ++ indentLines indent (descriptionText text) ++ "\n"

/-- The entries of a block, one a line, in braces; nothing when there are none. -/
def block (entries : List CodeText) : CodeText :=
  if entries.isEmpty then "" else " \x7b\n" ++ CodeText.intercalate "\n" entries ++ "\n\x7d"

/-- The indentation of a field, and of an argument on a line of its own. -/
def fieldIndent : String := "  "

def argumentIndent : String := "    "

/-- Shows the entries of a block, of which the first is told apart. -/
def entries {α : Type} (show? : Bool → α → Except ValueFault CodeText) :
    List α → Except ValueFault (List CodeText)
  | [] => .ok []
  | x :: rest => do
    let first ← show? true x
    let others ← rest.mapM (show? false)
    return first :: others

end Sdl

open Sdl

namespace Schema

/-- An argument or a field of an input type, with its default. -/
def printInputValue (s : Schema) (i : InputValue) : Except ValueFault String := do
  let node ← match i.default with
    | some v => s.defaultNode? i.type v.toValue
    | none => pure none
  let value := match node with
    | some node => " = " ++ node.print
    | none => ""
  return s!"{i.name}: {i.type.text}{value}"

/-- An argument or a field of an input type on a line of its own. -/
def printInputLine (s : Schema) (indent : String) (first : Bool) (i : InputValue) :
    Except ValueFault CodeText := do
  return description indent first (i.description.map .ofString) ++ indent ++
    (← s.printInputValue i)

/-- Whether a description has any text. -/
def isDescribed (i : InputValue) : Bool := i.description.getD "" ≠ ""

/-- The arguments of a field, in parentheses; nothing when there are none. -/
def printArguments (s : Schema) (arguments : List InputValue) : Except ValueFault CodeText :=
  if arguments.isEmpty then return ""
  else if !arguments.any isDescribed then do
    return "(" ++ ", ".intercalate (← arguments.mapM s.printInputValue) ++ ")"
  else do
    let lines ← entries (s.printInputLine argumentIndent) arguments
    return "(\n" ++ CodeText.intercalate "\n" lines ++ "\n" ++ fieldIndent ++ ")"

def printField (s : Schema) (first : Bool) (f : Field) : Except ValueFault CodeText := do
  let arguments ← s.printArguments f.arguments
  return description fieldIndent first (f.description.map .ofString) ++ fieldIndent ++ f.name ++
    arguments ++ ": " ++ f.type.text

/-- What stands behind the name of a scalar. -/
def printSpecifiedBy : ScalarKind → CodeText
  | .custom (some url) => " @specifiedBy(url: " ++ quotedText url ++ ")"
  | _ => ""

/-- The text of a type without its description. -/
def printDefinition (s : Schema) (t : NamedType) : Except ValueFault CodeText :=
  match t.definition with
  | .scalar kind => return "scalar " ++ t.name ++ printSpecifiedBy kind
  | .object fields => do
    return "type " ++ t.name ++ block (← entries s.printField fields)
  | .inputObject fields => do
    return "input " ++ t.name ++ block (← entries (s.printInputLine fieldIndent) fields)
  | .union members =>
    let alternatives := if members.isEmpty then "" else " = " ++ " | ".intercalate members
    return "union " ++ t.name ++ alternatives
  | .enumeration values =>
    return "enum " ++ t.name ++ block (values.map fun (value : String) => fieldIndent ++ value)

/-- The text of a type. -/
def printType (s : Schema) (t : NamedType) : Except ValueFault CodeText := do
  return description "" true t.description ++ (← s.printDefinition t)

/-- The types of a schema that are not built in, in the order of the walk. -/
def shownTypes (s : Schema) : List NamedType := s.typeNames.filterMap s.type?

/-- The text of a schema. -/
def print (s : Schema) : Except ValueFault CodeText := do
  return CodeText.intercalate "\n\n" (← s.shownTypes.mapM s.printType)

end Schema

end DeclaredSchema
