import DeclaredSchema.Schema

/-!
# Default values in schema text

A default is written as a value of its type: the scalar or enumeration writes it first, and what
comes out is shown by its kind. A list type shows a single value as its item. An input type has no
default that is a literal, so none is shown.

## Main definitions

* `Value.node` — a written value that stands for a value
* `Schema.defaultNode?` — the default of something of a given type, as schema text shows it
-/

namespace DeclaredSchema

/-- The text of a finite number, without a fraction of zero. -/
def Binary64.shownText (x : Binary64) : String :=
  let cs := x.text.toList
  if ".0".toList.isSuffixOf cs then String.ofList (cs.take (cs.length - 2)) else x.text

/-- A written value that stands for a value of a leaf type. -/
def Value.node (v : Value) : Except ValueFault ValueNode :=
  match v with
  | .bool value => .ok (.boolean value)
  | .int value =>
    match writeInteger? value with
    | some text => .ok (.int text)
    | none => .error .longInteger
  | .float value =>
    if value.isFinite then .ok (.float value.shownText) else v.refuseBriefly .unprintable
  | .str text => .ok (.string text false)
  | _ => v.refuseBriefly .unprintable

/-- Whether a text is written as an integer: digits without needless zeros, perhaps behind a minus
sign, and perhaps before one line feed. -/
def isIntegerText (text : String) : Bool :=
  let unsigned := match text.toList with
    | '-' :: rest => rest
    | cs => cs
  match unsigned with
  | '0' :: rest => rest = [] || rest = ['\n']
  | c :: rest =>
    let tail := rest.dropWhile Char.isDigit
    c.isDigit && (tail = [] || tail = ['\n'])
  | [] => false

/-- The default of an identifier: a text that is an integer is shown as one. -/
def identifierNode (v : Value) : Except ValueFault ValueNode := do
  match ← BuiltIn.id.serialize v with
  | .str text => return if isIntegerText text then .int text else .string text false
  | w => w.node

namespace Schema

/-- The default of something of a named type. -/
def leafNode? (s : Schema) (name : String) (v : Value) : Except ValueFault (Option ValueNode) :=
  match BuiltIn.ofName? name with
  | some .id => some <$> identifierNode v
  | some b => do return some (← (← b.serialize v).node)
  | none =>
    match (s.type? name).map NamedType.definition with
    | some (.scalar kind) => do return some (← (← kind.serialize name v).node)
    | some (.enumeration values) =>
      match v with
      | .str text =>
        if values.contains text then .ok (some (.enum text))
        else v.refuseBriefly (.notEnumValue name)
      | _ => v.refuseBriefly (.notEnumValue name)
    | _ => .ok none

/-- The default of something of a given type. -/
def defaultNode? (s : Schema) (t : SchemaType) (v : Value) :
    Except ValueFault (Option ValueNode) :=
  match t with
  | .nonNull inner => s.defaultNode? inner v
  | .list element => s.defaultNode? element v
  | .named name => s.leafNode? name v

end Schema

example : isIntegerText "-10" ∧ isIntegerText "0\n" ∧ isIntegerText "01" = false ∧
    isIntegerText "-" = false := by
  decide +kernel

end DeclaredSchema
