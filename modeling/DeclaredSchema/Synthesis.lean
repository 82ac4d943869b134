import DeclaredSchema.Declaration.Lineage
import DeclaredSchema.Options
import DeclaredSchema.Schema
import DeclaredSchema.Synthesis.Error
import DeclaredSchema.Trace

/-!
# From descriptors to a schema

A schema is made from the roots of a graph of descriptors, depth first. A record becomes an object
type where it is used as output, and an input type where it is used as input; it is made once for
each of the two modes. What a slot of the graph has become in a mode is noted before its members are
visited, so a cycle comes back to the type that is being made. Its fields are filled in at the end.

Every name is claimed by the type that gets it, for the label of its descriptor, and a second type
of the same name is refused.

## One step and its repetition

As in extraction, the functions of a step take the function `visit` that makes the type of another
slot. Every visit that goes on to others notes its slot and mode first, so no more visits are nested
than there are slots and modes.

## Main definitions

* `Mode`, `Draft`, `Synth` — input and output, the schema under construction, the steps
* `Synthesis.typeOf` — the type that a use of a type becomes
* `Synthesis.visitStep`, `Synthesis.visit` — the type that a slot becomes
* `synthesis` — a schema, with the draft as it stands at the end
-/

namespace DeclaredSchema

/-- Whether values of a type go in or come out. -/
inductive Mode where
  | input
  | output
  deriving DecidableEq, Repr

def Mode.text : Mode → String
  | input => "input"
  | output => "output"

/-- A type of the table with the label of the descriptor that claimed its name. -/
structure Claim where
  type : NamedType
  owner : String
  deriving DecidableEq, Repr

/-- A schema under construction: the names claimed so far, what each slot has become in each mode,
the scalars of inline unions of texts, and how many names were invented; besides it the trace, the
primitives that the factory was asked for, and the slots whose types were started, each with its
mode, all three with the latest first. -/
structure Draft where
  claims : List Claim
  made : List ((Nat × Mode) × String)
  texts : List (List String × String)
  invented : Nat
  latestEvents : List Event
  latestCalls : List Primitive
  latestStarts : List (Nat × Mode)

namespace Draft

def empty : Draft := ⟨[], [], [], 0, [], [], []⟩

/-- The trace in order. -/
def events (d : Draft) : List Event := d.latestEvents.reverse

/-- The primitives that the factory was asked for, in order. -/
def calls (d : Draft) : List Primitive := d.latestCalls.reverse

/-- The slots whose types were started, in order. A slot stays here when its type is refused. -/
def starts (d : Draft) : List (Nat × Mode) := d.latestStarts.reverse

def claim? (d : Draft) (name : String) : Option Claim := d.claims.find? fun c => c.type.name = name

/-- The label for which a name is taken. -/
def owner? (d : Draft) (name : String) : Option String :=
  if (BuiltIn.ofName? name).isSome then some "the built-in scalar"
  else (d.claim? name).map Claim.owner

/-- Whether a name is that of a scalar. -/
def isScalar (d : Draft) (name : String) : Bool :=
  (BuiltIn.ofName? name).isSome || (d.claim? name).any fun c => c.type.definition.isScalar

/-- Whether a name is that of an object type. -/
def isObject (d : Draft) (name : String) : Bool :=
  (d.claim? name).any fun c => c.type.definition.isObject

/-- The draft with the definition of a claimed type replaced. -/
def define (d : Draft) (name : String) (definition : TypeDefinition) : Draft :=
  { d with
    claims := d.claims.map fun c =>
      if c.type.name = name then { c with type := { c.type with definition } } else c }

end Draft

/-- A step that may change the draft and may fail; the draft outlives a failure. -/
abbrev Synth := ExceptT SynthesisFailure (StateM Draft)

namespace Synthesis

/-! ## Names -/

/-- The names of the roots. -/
def queryRoot : String := "Query"

def mutationRoot : String := "Mutation"

/-- The member that names an inline record and is no field. -/
def typenameMember : String := "__typename"

/-- What the name of a record gets in input mode. -/
def inputEnding : String := "Input"

/-- The scalar of dates, which is one type however often it is claimed. -/
def dateType : NamedType := ⟨Date.name, some Date.description, .scalar .date⟩

/-- The type that a custom scalar is. The date scalar is the type of dates. -/
def customType (s : CustomScalar) : NamedType := ⟨s.name, s.description, .scalar s.kind⟩

/-- Fails because of a descriptor. -/
def fail {α : Type} (label : String) (fault : SynthesisFault) : Synth α :=
  throw (.descriptor ⟨fault, label⟩)

def record (event : Event) : Synth Unit :=
  modify fun d => { d with latestEvents := event :: d.latestEvents }

/-- Checks that a type can be made with this name. -/
def named (name : String) : Synth Unit :=
  match checkName name with
  | .ok _ => return ()
  | .error fault => throw (.name fault)

/-- Claims the name of a type for a descriptor. -/
def claim (type : NamedType) (label : String) : Synth Unit := do
  if !isPublicName type.name then fail label (.notTypeName type.name label)
  let d ← get
  match d.owner? type.name with
  | none => set { d with claims := d.claims ++ [Claim.mk type label] }
  | some owner =>
    if type = dateType ∧ (d.claim? type.name).map Claim.type = some dateType then return ()
    else fail label (.nameTaken type.name label owner)

/-- Notes what a slot has become. -/
def note (slot : Nat) (modes : List Mode) (name : String) : Synth Unit :=
  modify fun d => { d with made := d.made ++ modes.map fun mode => ((slot, mode), name) }

/-- Notes that the type of a slot is made now. -/
def start (slot : Nat) (mode : Mode) : Synth Unit :=
  modify fun d => { d with latestStarts := (slot, mode) :: d.latestStarts }

/-- A name that no descriptor has given, with the next number. -/
def invent (stem : String) : Synth String := do
  let d ← get
  set { d with invented := d.invented + 1 }
  return stem ++ toString (d.invented + 1)

/-- The text of the first member that names an inline record. -/
def typenameOf (members : List Member) : Option String :=
  members.findSome? fun m => if m.name = typenameMember then m.type.text? else none

section Step

variable (g : Graph) (options : CompileOptions)

/-! ## Scalars -/

/-- The custom scalar for a primitive: from the list by its raw name or its name, else from the
factory. -/
def customScalar? (p : Primitive) : Synth (Option CustomScalar) :=
  match (options.scalar? p.raw).orElse fun _ => options.scalar? p.name with
  | some s => return some s
  | none =>
    match options.factory with
    | none => return none
    | some make => do
      modify fun d => { d with latestCalls := p :: d.latestCalls }
      match make p with
      | .ok s => return s
      | .error fault => throw (.name fault)

/-- The built-in scalar for a primitive. -/
def builtIn? (p : Primitive) : Option BuiltIn :=
  if p.name = "number" then some (if p.raw = BuiltIn.int.name then .int else .float)
  else if p.name = "string" then some .string
  else if p.name = "boolean" then some .boolean
  else none

/-- The scalar that a primitive becomes. A scalar that has the name of the one found is taken
instead of it. -/
def primitive (p : Primitive) : Synth SchemaType := do
  if p.raw = BuiltIn.id.name then return .named BuiltIn.id.name
  match ← customScalar? options p with
  | some s =>
    if !(← get).isScalar s.name then claim (customType s) p.label
    return .named s.name
  | none =>
    match builtIn? p with
    | some b => return .named b.name
    | none => fail p.label (.unknownScalar p.label)

/-- Letters as they are, and an underscore for each run of other characters. -/
def lettersOnly : Bool → List Char → List Char
  | _, [] => []
  | inRun, c :: rest =>
    if c.isAlpha then c :: lettersOnly false rest
    else if inRun then lettersOnly true rest
    else '_' :: lettersOnly true rest

/-- The name of the scalar of an inline union of texts. -/
def derivedName (texts : List String) : String :=
  "__".intercalate (texts.map fun text => String.ofList (lettersOnly false text.toList))

/-- A name that is given and not empty. -/
def givenName (name : Option String) : Option String := name.filter fun text => !text.isEmpty

/-- The scalar of a union of texts. Inline unions of the same texts share one. -/
def textScalar (slot : Nat) (name doc : Option String) (texts : List String) (label : String) :
    Synth SchemaType := do
  let d ← get
  let shared := if name.isNone then d.texts.lookup texts else none
  let made ← match shared with
    | some made => pure made
    | none => do
      let made := (givenName name).getD (derivedName texts)
      named made
      claim ⟨made, doc.map .ofString, .scalar (.texts texts)⟩ label
      if name.isNone then modify fun d => { d with texts := d.texts ++ [(texts, made)] }
      pure made
  note slot [.input, .output] made
  return .named made

variable (visit : Nat → Mode → Synth SchemaType)

/-- The type that a use of a type becomes. The elements of an array are never absent. -/
def typeOf (mode : Mode) : TypeRef → Synth SchemaType
  | .primitive p => primitive options p
  | .array element => do return .list (← typeOf mode element).required
  | .untypedArray => fail "array" .noElement
  | .date => do
    claim dateType "Date"
    return .named Date.name
  | .node slot => visit slot mode
  | .foreign text => fail (Text.quote text) (.unsupported (Text.quote text))

/-! ## Records -/

/-- Checks that a member can be a field or an argument. -/
def fieldName (m : Member) (owner : String) : Synth Unit :=
  if isPublicName m.name then return () else fail owner (.notFieldName m.name owner)

/-- The arguments or input fields that members become; of a name that occurs twice, the later
member counts, at the place of the earlier. -/
def inputValues (owner : String) : List Member → List InputValue → Synth (List InputValue)
  | [], acc => return acc
  | m :: rest, acc =>
    if m.name = typenameMember then inputValues owner rest acc
    else do
      fieldName m owner
      let type ← typeOf options visit .input m.type
      let value : InputValue := ⟨m.name, type.withNull m.nullable, m.default, m.doc⟩
      inputValues owner rest (insertByKey InputValue.name value acc)

/-- The field that a member becomes. Its arguments are input whatever the mode of the record. -/
def outputField (owner : String) (m : Member) : Synth Field := do
  let type ← typeOf options visit .output m.type
  let arguments ← match m.arguments with
    | some bag => inputValues options visit owner (g.membersAt bag) []
    | none => pure []
  return ⟨m.name, type.withNull m.nullable, arguments, m.doc⟩

/-- The fields that members become. -/
def outputFields (owner : String) : List Member → List Field → Synth (List Field)
  | [], acc => return acc
  | m :: rest, acc =>
    if m.name = typenameMember then outputFields owner rest acc
    else do
      fieldName m owner
      let field ← outputField g options visit owner m
      outputFields owner rest (insertByKey Field.name field acc)

/-- The ending of the name of a record. -/
def ending : Mode → String
  | .input => inputEnding
  | .output => ""

/-- The name of an inline record: what it says itself, or an invented one. -/
def inlineName (members : List Member) (tag : String) (mode : Mode) : Synth String :=
  match typenameOf members with
  | some name => return name ++ ending mode
  | none => do
    let name ← invent ("Anonymous" ++ ending mode)
    record (.named tag name)
    return name

/-- The type that a record becomes. -/
def recordType (slot : Nat) (mode : Mode) (name : String) (doc : Option String)
    (members : List Member) (label : String) : Synth SchemaType := do
  named name
  match mode with
  | .input =>
    claim ⟨name, doc.map .ofString, .inputObject []⟩ label
    note slot [mode] name
    let fields ← inputValues options visit label members []
    if fields.isEmpty then fail label (.noFields label)
    modify fun d => d.define name (.inputObject fields)
  | .output =>
    claim ⟨name, doc.map .ofString, .object []⟩ label
    note slot [mode] name
    let fields ← outputFields g options visit label members []
    if fields.isEmpty then fail label (.noFields label)
    modify fun d => d.define name (.object fields)
  return .named name

/-! ## Unions and enumerations -/

/-- The object type that an alternative of a union becomes. -/
def unionMember (label : String) (r : TypeRef) : Synth String := do
  match ← typeOf options visit .output r with
  | .named name =>
    if (← get).isObject name then return name
    else fail label (.notObjectMember (g.label r) label)
  | _ => fail label (.notObjectMember (g.label r) label)

/-- The object types that the alternatives of a union become. -/
def unionMembers (label : String) (alternatives : List TypeRef) : Synth (List String) :=
  alternatives.mapM (unionMember g options visit label)

/-- The union type that a union of records becomes as output. -/
def objectUnion (slot : Nat) (name doc : Option String) (alternatives : List TypeRef)
    (label : String) : Synth SchemaType := do
  let name ← match givenName name with
    | some name => pure name
    | none => invent "AnonymousUnion"
  named name
  claim ⟨name, doc.map .ofString, .union []⟩ label
  note slot [.output] name
  let members ← unionMembers g options visit label alternatives
  modify fun d => d.define name (.union members)
  return .named name

/-- The type that a union becomes: a scalar if it consists of texts, a union type if it is used as
output and does not consist of primitives. -/
def unionType (slot : Nat) (mode : Mode) (name doc : Option String) (alternatives : List TypeRef)
    (label : String) : Synth SchemaType :=
  if alternatives.all fun r => r.text?.isSome then
    textScalar slot name doc (alternatives.filterMap TypeRef.text?) label
  else
    match mode with
    | .input => fail label (.inputUnion label)
    | .output =>
      if alternatives.all fun r => r.primitive?.isSome then fail label (.onlyPrimitives label)
      else objectUnion g options visit slot name doc alternatives label

/-- Names that no value of an enumeration may have. -/
def reservedValues : List String := ["true", "false", "null"]

/-- The values of an enumeration, each once. -/
def enumValues (label : String) : List TypeRef → List String → Synth (List String)
  | [], acc => return acc
  | r :: rest, acc =>
    match r.text? with
    | none => fail label (.enumMember label (g.tag r))
    | some text =>
      if !isName text || reservedValues.contains text then
        fail label (.enumValueName label text)
      else enumValues label rest (insertByKey id text acc)

/-- The enumeration type that an enumeration becomes, in either mode. -/
def enumType (slot : Nat) (name : String) (doc : Option String) (members : List TypeRef)
    (label : String) : Synth SchemaType := do
  let values ← enumValues g label members []
  named name
  claim ⟨name, doc.map .ofString, .enumeration values⟩ label
  note slot [.input, .output] name
  return .named name

/-! ## Slots -/

/-- The type that a slot becomes which has not become one yet. -/
def makeType (slot : Nat) (mode : Mode) (d : Descriptor) : Synth SchemaType :=
  match d.shape with
  | .record name doc members =>
    recordType g options visit slot mode (name ++ ending mode) doc members d.label
  | .inlineRecord _ doc members => do
    let name ← inlineName members d.tag mode
    recordType g options visit slot mode name doc members d.label
  | .union name doc alternatives =>
    unionType g options visit slot mode name doc alternatives d.label
  | .enumeration name doc members => enumType g slot name doc members d.label

/-- The type that a slot becomes, given how to make the types of others. -/
def visitStep (slot : Nat) (mode : Mode) : Synth SchemaType := do
  let tag := g.tag (.node slot)
  match (← get).made.lookup (slot, mode) with
  | some name =>
    record (.reusing name tag mode.text)
    return .named name
  | none =>
    match g[slot]? with
    | some d => do
      start slot mode
      makeType g options visit slot mode d
    | none => fail tag (.unsupported tag)

end Step

/-- The type that a slot becomes, with at most the given number of nested visits. -/
def visit (g : Graph) (options : CompileOptions) : Nat → Nat → Mode → Synth SchemaType
  | 0 => fun _ _ => throw .endless
  | depth + 1 => visitStep g options (visit g options depth)

/-- More nested visits than any graph of this size needs. -/
def depthBound (g : Graph) : Nat := 2 * g.length + 2

/-! ## Roots -/

/-- The slots of the two roots. -/
structure Roots where
  query : Option Nat
  mutation : Option Nat

/-- Finds the roots among the listed descriptors. -/
def findRoots (g : Graph) : List TypeRef → Roots → Synth Roots
  | [], roots => return roots
  | r :: rest, roots =>
    match r, g.shape? r with
    | .node slot, some (.record name _ _) =>
      if name = queryRoot then
        if roots.query.isSome then fail name (.doubledRoot name)
        else findRoots g rest { roots with query := some slot }
      else if name = mutationRoot then
        if roots.mutation.isSome then fail name (.doubledRoot name)
        else findRoots g rest { roots with mutation := some slot }
      else findRoots g rest roots
    | _, _ => findRoots g rest roots

/-- The type that a root becomes. -/
def rootType (g : Graph) (options : CompileOptions) (name : String) (slot : Option Nat) :
    Synth (Option String) :=
  match slot with
  | none => return none
  | some slot => do
    record (.resolvingRoot name)
    let type ← visit g options (depthBound g) slot .output
    return some type.baseName

/-- Makes the schema of the listed descriptors. -/
def run (g : Graph) (listed : List TypeRef) (options : CompileOptions) : Synth Schema := do
  let roots ← findRoots g listed ⟨none, none⟩
  if roots.query.isNone && roots.mutation.isNone then fail "<schema>" .noRoot
  let query ← rootType g options queryRoot roots.query
  let mutation ← rootType g options mutationRoot roots.mutation
  let claims := (← get).claims
  record (.synthesized claims.length)
  return ⟨query, mutation, claims.map Claim.type⟩

end Synthesis

/-- The schema of the listed descriptors of a graph, with the draft as it stands at the end, which
is the end of the first failure. -/
def synthesis (g : Graph) (listed : List TypeRef) (options : CompileOptions) :
    Except SynthesisFailure Schema × Draft :=
  (Synthesis.run g listed options).run Draft.empty

/-- The schema of all descriptors of a graph. -/
def synthesize (g : Graph) (options : CompileOptions) : Except SynthesisFailure Schema :=
  (synthesis g ((List.range g.length).map .node) options).1

end DeclaredSchema
