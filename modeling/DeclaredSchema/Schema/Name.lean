import DeclaredSchema.Text.Quoted

/-!
# Names in a schema

Types, fields, arguments and enumeration values have names of ASCII letters, digits and underscores
that do not start with a digit. Names that start with two underscores are reserved, except as
enumeration values.

A type is made with a name in two steps, with different messages: first the characters are checked,
then whether the name may be used for a type.

## Main definitions

* `isName`, `isPublicName` — names, and those that are not reserved
* `NameFault`, `checkName` — why a text is no name
-/

namespace DeclaredSchema

def isNameStart (c : Char) : Bool := c.isAlpha || c = '_'

def isNamePart (c : Char) : Bool := c.isAlphanum || c = '_'

/-- Whether a text is a name. -/
def isName (text : String) : Bool :=
  match text.toList with
  | [] => false
  | c :: rest => isNameStart c && rest.all isNamePart

/-- Whether a text starts with two underscores. -/
def isReserved (text : String) : Bool := "__".toList.isPrefixOf text.toList

/-- Whether a text is a name that types, fields and arguments may have. -/
def isPublicName (text : String) : Bool := isName text && !isReserved text

/-- Why a text is no name. -/
inductive NameFault where
  | empty
  | badPart (name : String)
  | badStart (name : String)
  deriving DecidableEq, Repr

def NameFault.message : NameFault → String
  | empty => "Expected name to be a non-empty string."
  | badPart name => s!"Names must only contain [_a-zA-Z0-9] but {Text.quote name} does not."
  | badStart name => s!"Names must start with [_a-zA-Z] but {Text.quote name} does not."

/-- Checks that a text is a name; the first character is checked after the others. -/
def checkName (name : String) : Except NameFault Unit :=
  match name.toList with
  | [] => .error .empty
  | c :: rest =>
    if !rest.all isNamePart then .error (.badPart name)
    else if !isNameStart c then .error (.badStart name)
    else .ok ()

/-- The check passes exactly for names. -/
theorem checkName_eq_ok_iff (name : String) : checkName name = .ok () ↔ isName name = true := by
  unfold checkName isName
  cases name.toList with
  | nil => simp
  | cons c rest =>
    cases hs : isNameStart c <;> cases hp : rest.all isNamePart <;> simp [hs, hp]

end DeclaredSchema
