import DeclaredSchema.Calendar
import DeclaredSchema.Literal
import DeclaredSchema.Number.Reading

/-!
# Values at run time

What a scalar is given or returns when a schema is in use: any JSON value, or a date and time. Keys
of an object keep their order.

## Main definitions

* `Value` — a value
* `Value.display` — a value as messages show it
* `Literal.toValue` — a literal of a declaration as a value
* `abridged` — a text cut in the middle
-/

namespace DeclaredSchema

/-- A value at run time. A date and time may come with the offset of the clock that showed it, in
microseconds. -/
inductive Value where
  | null
  | bool (value : Bool)
  | int (value : Int)
  | float (value : Binary64)
  | str (text : String)
  | list (items : List Value)
  | object (fields : List (String × Value))
  | dateTime (value : DateTime) (offset : Option Int)

instance : Inhabited Value := ⟨.null⟩

namespace DateTime

/-- The fields that a display shows: seconds only if they or the microseconds are not zero, and
microseconds only if they are not. -/
def shownFields (d : DateTime) : List Nat :=
  [d.year, d.month, d.day, d.hour, d.minute] ++
    (if d.microsecond ≠ 0 then [d.second, d.microsecond]
    else if d.second ≠ 0 then [d.second] else [])

/-- The parts of an offset that a display shows: whole days, the seconds of the rest and the
microseconds of what is left then, of which only the days can be negative. -/
def shownOffset (offset : Int) : String :=
  let part (name : String) (n : Int) := if n ≠ 0 then [name ++ "=" ++ toString n] else []
  let inDay := offset % perDay
  let parts := part "days" (offset / perDay) ++ part "seconds" (inDay / perSecond) ++
    part "microseconds" (inDay % perSecond)
  if offset = 0 then "datetime.timezone.utc"
  else "datetime.timezone(datetime.timedelta(" ++ ", ".intercalate parts ++ "))"

def display (d : DateTime) (offset : Option Int) : String :=
  let clock := match offset with
    | some ahead => ["tzinfo=" ++ shownOffset ahead]
    | none => []
  "datetime.datetime(" ++ ", ".intercalate (d.shownFields.map toString ++ clock) ++ ")"

end DateTime

namespace Value

mutual

/-- A value as messages show it. There is no text if an integer in it has too many digits. -/
def display : Value → Option String
  | null => some "None"
  | bool value => some (if value then "True" else "False")
  | int value => writeInteger? value
  | float value => some value.text
  | str text => some (Text.quote text)
  | list items => (displayItems items).map fun shown => "[" ++ ", ".intercalate shown ++ "]"
  | object fields =>
    (displayFields fields).map fun shown => "\x7b" ++ ", ".intercalate shown ++ "\x7d"
  | dateTime value offset => some (value.display offset)

def displayItems : List Value → Option (List String)
  | [] => some []
  | v :: rest => do return (← v.display) :: (← displayItems rest)

def displayFields : List (String × Value) → Option (List String)
  | [] => some []
  | (key, v) :: rest => do
    return (Text.quote key ++ ": " ++ (← v.display)) :: (← displayFields rest)

end

def text? : Value → Option String
  | str text => some text
  | _ => none

end Value

def Literal.toValue : Literal → Value
  | .str text => .str text
  | .int value => .int value
  | .float value => .float value
  | .bool value => .bool value

/-- A text of at most 240 characters; of a longer one, the start and the end. -/
def abridged (text : String) : String :=
  let cs := text.toList
  if cs.length ≤ 240 then text
  else String.ofList (cs.take 118 ++ "...".toList ++ cs.drop (cs.length - 119))

end DeclaredSchema
