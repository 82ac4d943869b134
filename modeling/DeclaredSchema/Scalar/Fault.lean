import DeclaredSchema.Sdl.ValueNode

/-!
# Values that a scalar refuses

Scalars are asked for values when a schema is in use and when its defaults are printed. What they
refuse is shown as it was given, a text that is too long being cut. An integer with too many digits
cannot be shown, nor can a list or an object that holds one, and then this is the fault.

## Main definitions

* `ValueFault` — why a value is refused
* `ValueFault.message` — its text
* `ValueFault.isReported` — whether it is reported with the request
* `Value.refuse`, `Value.refuseBriefly` — refusing a value
-/

namespace DeclaredSchema

/-- Why a scalar or an enumeration refuses a value, with the value as the message shows it. -/
inductive ValueFault where
  | longInteger
  | notDateTime (shown : String)
  | dateRange
  | yearRange (shown : String)
  | notTimestamp (shown : String)
  | noSuchMoment (text : String)
  | dateNode (node : ValueNode)
  | notAmong (name : String) (allowed : List String) (shown : String)
  | textNode (name : String) (node : ValueNode)
  | notEnumValue (name : String) (shown : String)
  | notInteger (shown : String)
  | integerRange (shown : String)
  | notReal (shown : String)
  | realRange
  | notText (shown : String)
  | notBoolean (shown : String)
  | notIdentifier (shown : String)
  | unprintable (shown : String)

/-- The values that a scalar of texts allows, as its messages list them. -/
def allowedList (allowed : List String) : String :=
  " | ".intercalate (allowed.map fun text => "\"" ++ text ++ "\"")

def ValueFault.message : ValueFault → String
  | longInteger =>
    s!"Exceeds the limit ({digitLimit} digits) for integer string conversion; " ++
    "use sys.set_int_max_str_digits() to increase the limit"
  | notDateTime shown => "Date cannot represent a non-datetime value: " ++ shown
  | dateRange => "date value out of range"
  | yearRange shown => "Date cannot represent a value outside years 0000-9999: " ++ shown
  | notTimestamp shown =>
    "Date cannot represent value: " ++ shown ++ "; expected YYYY-MM-DDTHH:MM:SS.mmmZ"
  | noSuchMoment text => "Date cannot represent an invalid timestamp: " ++ Text.quote text
  | dateNode node => "Date cannot represent a non-string value: " ++ node.print
  | notAmong name allowed shown =>
    name ++ " (" ++ allowedList allowed ++ ") does not have value: " ++ shown
  | textNode name node => name ++ " expects a string literal, got " ++ node.print
  | notEnumValue name shown => s!"Enum '{name}' cannot represent value: {shown}"
  | notInteger shown => s!"Int cannot represent non-integer value: {shown}"
  | integerRange shown => s!"Int cannot represent non 32-bit signed integer value: {shown}"
  | notReal shown => s!"Float cannot represent non numeric value: {shown}"
  | realRange => "int too large to convert to float"
  | notText shown => s!"String cannot represent value: {shown}"
  | notBoolean shown => s!"Boolean cannot represent a non boolean value: {shown}"
  | notIdentifier shown => s!"ID cannot represent value: {shown}"
  | unprintable shown => s!"Cannot convert value to AST: {shown}."

/-- Whether a fault is an error of the request that asked for the value. The others escape: an
integer that is too long to be written, arithmetic that leaves the range of dates or of doubles, and
a value that nothing is written as. -/
def ValueFault.isReported : ValueFault → Bool
  | longInteger | dateRange | realRange | unprintable _ => false
  | _ => true

namespace Value

/-- Refuses a value with a fault that shows it, unless it cannot be shown. -/
def refuse {α : Type} (v : Value) (fault : String → ValueFault) : Except ValueFault α :=
  match v.display with
  | some shown => .error (fault shown)
  | none => .error .longInteger

/-- Refuses a value with a fault of a built-in type, which cuts a long text or number. -/
def refuseBriefly {α : Type} (v : Value) (fault : String → ValueFault) : Except ValueFault α :=
  match v with
  | .str _ | .int _ => v.refuse fun shown => fault (abridged shown)
  | _ => v.refuse fault

end Value

end DeclaredSchema
