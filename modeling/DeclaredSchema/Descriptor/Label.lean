import DeclaredSchema.Descriptor

/-!
# How messages name descriptors

There are two ways to name a type. Its label is a phrase for a message to the user. Its tag, for
the trace of a run, says what kind of descriptor it is and under which number it stands.

## Main definitions

* `Graph.label` — the label of a type
* `Graph.tag` — the tag of a type
* `Graph.describe` — the label, refused for something that is no type
-/

namespace DeclaredSchema

namespace Descriptor

def label (d : Descriptor) : String :=
  match d.shape with
  | .record name .. | .enumeration name .. => s!"'{name}'"
  | .union (some name) .. =>
    if name.isEmpty then s!"anonymous union #{d.id}" else s!"union '{name}'"
  | .union none .. => s!"anonymous union #{d.id}"
  | .inlineRecord location .. =>
    let place := if location.isEmpty then "" else s!" at {location}"
    s!"anonymous object type #{d.id}{place}"

def tag (d : Descriptor) : String :=
  match d.shape with
  | .record name .. => s!"InterfaceNamed#{d.id}({name})"
  | .inlineRecord location .. => s!"InterfaceLiteral#{d.id}({location})"
  | .union name .. =>
    let shown := match name with
      | some text => if text.isEmpty then "anonymous" else text
      | none => "anonymous"
    s!"Union#{d.id}({shown})"
  | .enumeration name .. => s!"Enum#{d.id}({name})"

end Descriptor

def Primitive.label (p : Primitive) : String := s!"primitive '{p.raw}'"

def Primitive.tag (p : Primitive) : String :=
  match p.literal with
  | some v => s!"Primitive({p.name}, literal={v.display})"
  | none => s!"Primitive({p.name}, raw={Text.quote p.raw})"

namespace Graph

/-- The phrase by which messages name a type. -/
def label (g : Graph) : TypeRef → String
  | .primitive p => p.label
  | .array _ | .untypedArray => "array"
  | .date => "Date"
  | .node slot => (g[slot]?.map Descriptor.label).getD ""
  | .foreign text => Text.quote text

/-- The name of a type in the trace of a run. -/
def tag (g : Graph) : TypeRef → String
  | .primitive p => p.tag
  | .array element => s!"Native(array of {g.tag element})"
  | .untypedArray => "Native(array of None)"
  | .date => "Native(date)"
  | .node slot => (g[slot]?.map Descriptor.tag).getD ""
  | .foreign text => Text.quote text

/-- The label of a type; the text of a refusal for something that is no type. -/
def describe (g : Graph) : TypeRef → Except String String
  | .foreign text => .error ("Not a type descriptor: " ++ Text.quote text)
  | r => .ok (g.label r)

end Graph

end DeclaredSchema
