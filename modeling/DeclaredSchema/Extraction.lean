import DeclaredSchema.Declaration.Lineage
import DeclaredSchema.Declaration.Size
import DeclaredSchema.Declaration.Strip
import DeclaredSchema.Descriptor.Default
import DeclaredSchema.Descriptor.Label

/-!
# From declarations to descriptors

Every declaration that names a shape, and every inline object or union type, gets one slot in the
table of descriptors. The slot is taken before the members are resolved, so a type that reaches
itself finds its own slot. A slot is found again by its key: the name of the declaration, or the
site of the inline type.

The members of a record enter the table when all of them are resolved. The alternatives of a union
enter one by one, so a default value that is checked meanwhile sees those resolved so far. Until all
of them are there, the newest comes first.

## One step and its repetition

Resolving a type needs types within it, or types that it names, to be resolved. Each function of a
step takes the function `rec` that does this, and `resolve` ties the knot, counting the depth of
nested resolutions down from a bound. Along a descent without a new slot no expression recurs,
unless the types are endless, and there are no more slots than expressions and declarations; the
bound is the square of their number, so it is reached only by endless types, such as an alias of an
array of itself.

## Main definitions

* `Registry`, `Extract` — the table under construction, and the steps that change it
* `Extraction.resolveStep`, `Extraction.resolve` — from a type expression to a type
* `extract` — all descriptors of a file
* `extraction` — the same, with the table as it stands when a declaration is refused
-/

namespace DeclaredSchema

/-- What a slot of the table was taken for. -/
inductive NodeKey where
  | declared (name : String)
  | inline (site : Site)
  deriving DecidableEq, Repr

/-- The table of descriptors under construction; each slot has its key. -/
structure Registry where
  keys : List NodeKey
  graph : Graph

namespace Registry

def empty : Registry := ⟨[], []⟩

/-- The slot of a key. -/
def slot? (r : Registry) (key : NodeKey) : Option Nat := r.keys.findIdx? (· = key)

/-- Takes the next slot. Slots are counted from zero, and descriptors show numbers from one. -/
def add (r : Registry) (key : NodeKey) (shape : Shape) : Registry :=
  ⟨r.keys ++ [key], r.graph ++ [⟨r.graph.length + 1, shape⟩]⟩

def update (r : Registry) (slot : Nat) (change : Shape → Shape) : Registry :=
  { r with graph := r.graph.update slot change }

@[simp] theorem keys_add (r : Registry) (key : NodeKey) (shape : Shape) :
    (r.add key shape).keys = r.keys ++ [key] := rfl

@[simp] theorem length_graph_add (r : Registry) (key : NodeKey) (shape : Shape) :
    (r.add key shape).graph.length = r.graph.length + 1 := by
  simp [add]

@[simp] theorem keys_update (r : Registry) (slot : Nat) (change : Shape → Shape) :
    (r.update slot change).keys = r.keys := rfl

@[simp] theorem length_graph_update (r : Registry) (slot : Nat) (change : Shape → Shape) :
    (r.update slot change).graph.length = r.graph.length := by
  simp [update]

end Registry

/-- Why there are no descriptors: a declaration has no meaning, or a type has no end. -/
inductive ExtractionError where
  | declaration (error : DeclarationError)
  | endless
  deriving DecidableEq, Repr

/-- A step that may change the table and may fail; the table outlives a failure. -/
abbrev Extract := ExceptT ExtractionError (StateM Registry)

/-- What extraction depends on besides the table. -/
structure ExtractionContext where
  scope : Scope
  unionsAsEnums : Bool

namespace Extraction

/-- Fails because of a declaration. -/
def fail {α : Type} (e : DeclarationError) : Extract α := throw (.declaration e)

/-- Fails because of something at a place in the text. -/
def failAt {α : Type} (position : Position) (declaration : String) (fault : DeclarationFault) :
    Extract α :=
  fail ⟨fault, declaration, some position⟩

/-- Fails because of something whose place is not known. -/
def failFor {α : Type} (declaration : String) (fault : DeclarationFault) : Extract α :=
  fail ⟨fault, declaration, none⟩

/-- The slot of a key, if it is taken. -/
def slotOf (key : NodeKey) : Extract (Option Nat) := do
  return (← get).slot? key

/-- Takes a slot. -/
def register (key : NodeKey) (shape : Shape) : Extract Nat := do
  let r ← get
  set (r.add key shape)
  return r.graph.length

/-- Changes the shape in a slot. -/
def change (slot : Nat) (f : Shape → Shape) : Extract Unit := modify fun r => r.update slot f

/-- Takes off the wrappings of a type. -/
def stripped (ctx : ExtractionContext) (owner : String) (n : Node) : Extract Stripped :=
  match strip ctx.scope owner [] false none n with
  | .ok s => return s
  | .error e => fail e

/-- Resolves a type without wrappings: the type, the alias that named it, and the name of the place
for messages. -/
abbrev Resolver := Node → Option String → String → Extract TypeRef

section Step

variable (ctx : ExtractionContext) (rec : Resolver)

/-! ## Members -/

/-- The generic name that gives a member its default value. -/
def defaultName : String := "Default"

/-- Splits `Default<Type, literal>`; any other type has no default. -/
def splitDefault (s : Signature) (n : Node) : Extract (Node × Option Literal) :=
  match n.expr with
  | .reference name arguments _ =>
    if name = defaultName then
      match arguments with
      | [type, .literal value] => return (⟨n.site.child 0, type⟩, some value)
      | _ => failAt s.property.position s.label (.malformedDefault s.label)
    else return (n, none)
  | _ => return (n, none)

/-- The slot of the record that holds the arguments of a method. A method has one parameter of a
record type, or none. -/
def argumentBag (s : Signature) (parameters : List (Parameter TypeExpr)) : Extract (Option Nat) := do
  let owner := s.label
  match parameters with
  | [] => return none
  | [p] => do
    let inner ← stripped ctx owner ⟨s.site.child 1, p.type⟩
    let bag ← rec inner.node inner.raw s!"{owner}({p.name})"
    let r ← get
    match bag with
    | .node slot =>
      if r.graph.isRecord bag then return some slot
      else failAt s.property.position owner (.parameterNotObject p.name owner)
    | _ => failAt s.property.position owner (.parameterNotObject p.name owner)
  | _ => failAt s.property.position owner (.manyParameters owner parameters.length)

/-- The arguments of a member, and the type that it has besides them. -/
def splitArguments (s : Signature) : Extract (Option Nat × Node) :=
  match s.property.type with
  | .function parameters result => do
    let bag ← argumentBag ctx rec s parameters
    return (bag, ⟨s.site.child 0, result⟩)
  | type => return (none, ⟨s.site, type⟩)

/-- Resolves one member. -/
def member (s : Signature) : Extract Member := do
  let owner := s.label
  let (bag, n) ← splitArguments ctx rec s
  let (n, default) ← splitDefault s n
  let inner ← stripped ctx owner n
  let type ← rec inner.node inner.raw owner
  let g := (← get).graph
  match default with
  | some value =>
    if !g.admits type value then
      failAt s.property.position owner (.defaultMismatch value owner (g.label type))
  | none => pure ()
  return ⟨s.property.name, type, s.property.doc, s.property.optional, inner.nullable, default, bag⟩

/-- Resolves members in order. -/
def members (ss : List Signature) : Extract (List Member) := ss.mapM (member ctx rec)

/-- Resolves one step of a lineage, of which the last member of a name counts. -/
def inherit (ms : List Member) : LineageStep → Extract (List Member)
  | .member s => return insertByKey Member.name (← member ctx rec s) ms
  | .inheritsItself d => failAt d.position d.name (.inheritsItself d.name)
  | .notABase d base => failAt d.position d.name (.notABase d.name base)

/-! ## Declarations -/

/-- The slot of an interface. -/
def interface (d : Interface) : Extract Nat := do
  match ← slotOf (.declared d.name) with
  | some slot => return slot
  | none =>
    let slot ← register (.declared d.name) (.record d.name d.doc [])
    let ms ← foldLineage ctx.scope (inherit ctx rec) d []
    change slot (Shape.withMembers ms)
    return slot

/-- The member of an enumeration, which must have a text as its value. -/
def enumValue (d : Enumeration) (m : EnumEntry) : Extract TypeRef :=
  match m.value with
  | some (.str text) =>
    return .primitive ⟨LiteralKind.string.keyword, s!"{d.name}.{m.name}", some (.str text)⟩
  | _ => failAt d.position d.name (.enumValue d.name m.name)

/-- The slot of an enumeration. -/
def enumeration (d : Enumeration) : Extract Nat := do
  match ← slotOf (.declared d.name) with
  | some slot => return slot
  | none =>
    let slot ← register (.declared d.name) (.enumeration d.name d.doc [])
    let values ← d.members.mapM (enumValue d)
    change slot (Shape.withValues values)
    return slot

/-- A literal type as a primitive. -/
def literalType (raw : Option String) (value : Literal) : TypeRef :=
  .primitive ⟨value.kind.keyword, raw.getD value.written, some value⟩

/-- Resolves one alternative of a union. -/
def alternative (owner : String) (n : Node) : Extract TypeRef := do
  let inner ← stripped ctx owner n
  rec inner.node inner.raw owner

/-- Adds the alternatives of a union one by one, and puts them in order. -/
def fillUnion (slot : Nat) (owner : String) : List Node → Extract Unit
  | [] => change slot Shape.reverseAlternatives
  | n :: rest => do
    let type ← alternative ctx rec owner n
    change slot (Shape.addAlternative type)
    fillUnion slot owner rest

/-- The slot of a union whose key is not taken yet. -/
def newUnion (key : NodeKey) (name doc : Option String) (owner : String) (ns : List Node) :
    Extract Nat := do
  let slot ← register key (.union name doc [])
  fillUnion ctx rec slot owner ns
  return slot

/-- The slot of a named union. If asked for, a union of texts becomes an enumeration; texts and
other literals together then have no meaning. -/
def namedUnion (d : Alias) (ns : List Node) : Extract Nat := do
  let values := ns.filterMap fun n => n.expr.literal?
  if ctx.unionsAsEnums && values.length == ns.length then
    if values.all fun v => v.text?.isSome then
      register (.declared d.name) (.enumeration d.name d.doc (values.map (literalType none)))
    else if values.any fun v => v.text?.isSome then
      failAt d.position d.name (.mixedLiterals d.name)
    else newUnion ctx rec (.declared d.name) (some d.name) d.doc d.name ns
  else newUnion ctx rec (.declared d.name) (some d.name) d.doc d.name ns

/-- The slot of an alias, if it names a shape. -/
def aliasSlot? (d : Alias) : Extract (Option Nat) := do
  match ← slotOf (.declared d.name) with
  | some slot => return some slot
  | none =>
    if !namesShape ctx.scope d then return none
    else
      match alternatives ctx.scope d.node with
      | [⟨site, .object ps _⟩] =>
        let slot ← register (.declared d.name) (.record d.name d.doc [])
        let ms ← members ctx rec (site.signatures d.name ps)
        change slot (Shape.withMembers ms)
        return some slot
      | ns => return some (← namedUnion ctx rec d ns)

/-! ## Type expressions -/

/-- The slot of an inline object type. -/
def inlineObject (site : Site) (ps : List (Property TypeExpr)) (position : Position)
    (owner : String) : Extract Nat := do
  match ← slotOf (.inline site) with
  | some slot => return slot
  | none =>
    let slot ← register (.inline site) (.inlineRecord s!"{owner}, line {position.line}" none [])
    let ms ← members ctx rec (site.signatures owner ps)
    change slot (Shape.withMembers ms)
    return slot

/-- The slot of an inline union. -/
def inlineUnion (n : Node) (owner : String) : Extract Nat := do
  match ← slotOf (.inline n.site) with
  | some slot => return slot
  | none => newUnion ctx rec (.inline n.site) none none owner (alternatives ctx.scope n)

/-- An array of what `n` stands for. -/
def array (n : Node) (owner : String) : Extract TypeRef := do
  return .array (← alternative ctx rec owner n)

/-- The names of generic array types. -/
def arrayNames : List String := ["Array", "ReadonlyArray"]

/-- The name of the date type. -/
def dateName : String := "Date"

/-- Scalar names that need no declaration, with the primitive type that each refines. -/
def scalarBases : List (String × LiteralKind) :=
  [("ID", .string), ("Int", .number), ("Float", .number)]

/-- A name without arguments that nothing declares. Which scalar it is remains open. -/
def openScalar (name : String) : TypeRef :=
  .primitive ⟨((scalarBases.lookup name).map LiteralKind.keyword).getD name, name, none⟩

/-- A reference to a name that is not declared. -/
def undeclared (site : Site) (name : String) (arguments : List TypeExpr) (position : Position)
    (owner : String) : Extract TypeRef :=
  if arrayNames.contains name then
    match arguments with
    | [element] => array ctx rec ⟨site.child 0, element⟩ owner
    | _ => failAt position owner (.arrayArguments name owner)
  else if name = defaultName then failAt position owner (.misplacedDefault owner)
  else if !arguments.isEmpty then failAt position owner (.unknownGeneric name owner)
  else if name = dateName then return .date
  else return openScalar name

/-- A reference by name. Declared names come before built-in ones, and take no arguments. -/
def reference (site : Site) (name : String) (arguments : List TypeExpr) (position : Position)
    (owner : String) : Extract TypeRef := do
  match ctx.scope.find? name with
  | none => undeclared ctx rec site name arguments position owner
  | some d =>
    if !arguments.isEmpty then failAt position owner (.notGeneric name owner)
    else
      match d with
      | .interface d => return .node (← interface ctx rec d)
      | .enumeration d => return .node (← enumeration d)
      | .typeAlias d =>
        match ← aliasSlot? ctx rec d with
        | some slot => return .node slot
        | none => failFor owner (.unresolvedAlias name owner)

/-- A keyword type; only three of them can be members of a schema. -/
def keywordType (word : TypeKeyword) (raw : Option String) (owner : String) : Extract TypeRef :=
  match word with
  | .string | .number | .boolean => return .primitive ⟨word.text, raw.getD word.text, none⟩
  | _ => failFor owner (.unsupportedKeyword word.text owner)

/-- Resolves a type without wrappings, given how to resolve others. -/
def resolveStep : Resolver := fun n raw owner => do
  match n.expr with
  | .keyword word => keywordType word raw owner
  | .literal value => return literalType raw value
  | .array element => array ctx rec ⟨n.site.child 0, element⟩ owner
  | .object ps position => return .node (← inlineObject ctx rec n.site ps position owner)
  | .union _ => return .node (← inlineUnion ctx rec n owner)
  | .reference name arguments position => reference ctx rec n.site name arguments position owner
  | .function .. => failFor owner (.functionType owner)

end Step

/-- Resolves a type without wrappings, with at most the given number of nested resolutions. -/
def resolve (ctx : ExtractionContext) : Nat → Resolver
  | 0 => fun _ _ _ => throw .endless
  | depth + 1 => resolveStep ctx (resolve ctx depth)

/-- Resolves a declaration, given how to resolve types. -/
def declare (ctx : ExtractionContext) (rec : Resolver) : Declaration → Extract Unit
  | .interface d => discard (interface ctx rec d)
  | .enumeration d => discard (enumeration d)
  | .typeAlias d => discard (aliasSlot? ctx rec d)

/-- The first declaration whose name is declared before it. -/
def duplicate? : List String → List Declaration → Option Declaration
  | _, [] => none
  | seen, d :: rest => if seen.contains d.name then some d else duplicate? (d.name :: seen) rest

/-- More nested resolutions than any file of this size needs. -/
def depthBound (u : SourceUnit) : Nat := (u.size + 2) * (u.size + 2)

/-- Resolves all declarations of a file. -/
def run (unionsAsEnums : Bool) (u : SourceUnit) : Extract Unit :=
  match duplicate? [] u.declarations with
  | some d => failAt d.position d.name (.duplicate d.name)
  | none =>
    let ctx : ExtractionContext := ⟨u.declarations, unionsAsEnums⟩
    u.declarations.forM (declare ctx (resolve ctx (depthBound u)))

end Extraction

/-- The outcome of extraction, with the table as it stands at the end, which is the end of the first
failure. -/
def extraction (unionsAsEnums : Bool) (u : SourceUnit) : Except ExtractionError Unit × Graph :=
  let (outcome, r) := (Extraction.run unionsAsEnums u).run Registry.empty
  (outcome, r.graph)

/-- The descriptors of a file, in the order in which their slots are taken. -/
def extract (unionsAsEnums : Bool) (u : SourceUnit) : Except ExtractionError Graph :=
  match extraction unionsAsEnums u with
  | (.ok _, g) => .ok g
  | (.error e, _) => .error e

end DeclaredSchema
