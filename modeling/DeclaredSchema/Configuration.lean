import DeclaredSchema.Options
import DeclaredSchema.Yaml.Data.OfDocument

/-!
# Configuration files

The options of a compilation can be given in a YAML file, a mapping with two keys that may both be
left out: whether unions of texts are enumerations, and a list of custom scalars. A scalar is given
by its name, or by a mapping with its name and perhaps a description and the address of a
specification. A file without a document, or one that says nothing, gives the standard options.

## Main definitions

* `ConfigFault`, `ConfigError` — why a file gives no options
* `CompileOptions.ofData` — the options that data give
* `CompileOptions.ofText` — the options that the text of a file gives
-/

namespace DeclaredSchema

open Yaml (Atom Datum Data)

/-! ## Errors -/

/-- Why an entry of the list of scalars gives no scalar. -/
inductive EntryFault where
  | notEntry
  | missing (key : String)
  | notText (key : String)
  | badName (name : CodeText)
  deriving DecidableEq, Repr

/-- Why a file gives no options. Keys that are no texts are not reported like other unknown keys:
either they cannot be listed, or they cannot even be put in order. -/
inductive ConfigFault where
  | notYaml (fault : Yaml.Fault)
  | notMapping
  | unknownKeys (keys : List CodeText)
  | unlistedKey (sort : String)
  | unorderedKeys (disorder : Atom.Disorder)
  | notBoolean
  | notList
  | entry (index : Nat) (fault : EntryFault)
  | duplicate (name : String)
  deriving DecidableEq, Repr

/-- A fault with the label of the file. -/
structure ConfigError where
  label : String
  fault : ConfigFault
  deriving DecidableEq, Repr

/-- The key that makes unions of texts enumerations. -/
def enumsKey : String := "string-unions-as-enums"

/-- The key of the list of scalars. -/
def scalarsKey : String := "custom-scalars"

/-- The keys of an entry of that list. -/
def nameKey : String := "name"

def descriptionKey : String := "description"

def specifiedByKey : String := "specified-by-url"

/-- The text of a fault behind the place of the entry. -/
def EntryFault.message : EntryFault → CodeText
  | notEntry => " must be a scalar name or a YAML mapping"
  | missing key => s!": missing required field '{key}'"
  | notText key => s!": '{key}' must be a string"
  | badName name => ": '" ++ name ++ "' is not a valid GraphQL name"

def ConfigError.message (e : ConfigError) : CodeText :=
  match e.fault with
  | .notYaml .malformed => s!"Invalid YAML in {e.label}"
  | .notYaml fault => fault.message
  | .notMapping => s!"{e.label}: config must be a YAML mapping"
  | .unknownKeys keys => e.label ++ ": unknown key(s): " ++ CodeText.intercalate ", " keys
  | .unlistedKey sort => s!"sequence item 0: expected str instance, {sort} found"
  | .unorderedKeys disorder => disorder.message
  | .notBoolean => s!"{e.label}: '{enumsKey}' must be a boolean"
  | .notList => s!"{e.label}: '{scalarsKey}' must be a list"
  | .entry index fault => s!"{e.label}: {scalarsKey}[{index}]" ++ fault.message
  | .duplicate name => s!"{e.label}: duplicate custom scalar '{name}'"

/-- Whether an error is reported as a fault of the file. -/
def ConfigError.isReported (e : ConfigError) : Bool :=
  match e.fault with
  | .notYaml .malformed => true
  | .notYaml _ | .unlistedKey _ | .unorderedKeys .. => false
  | _ => true

/-! ## Keys -/

/-- Whether a key has a meaning in a configuration. -/
def isKnownKey : Atom → Bool
  | .str text => text = enumsKey || text = scalarsKey
  | _ => false

/-- Why the first two neighbours that have no order have none. The later one is looked at first. -/
def disorder? : List Atom → Option Atom.Disorder
  | a :: b :: rest =>
    match b.before a with
    | .error d => some d
    | .ok _ => disorder? (b :: rest)
  | _ => none

/-- Whether a key is known to come before another. -/
def comesBefore (a b : Atom) : Bool :=
  match a.before b with
  | .ok before => before
  | .error _ => false

/-- A key before which no other comes. -/
def least (key : Atom) (keys : List Atom) : Atom :=
  keys.foldl (fun a b => if comesBefore b a then b else a) key

/-- The text of a key that is a text. -/
def keyText? : Atom → Option CodeText
  | .str text => some text
  | _ => none

/-- What is wrong with keys that are not known. -/
def unknownFault (key : Atom) (keys : List Atom) : ConfigFault :=
  match disorder? (key :: keys) with
  | some d => .unorderedKeys d
  | none =>
    match least key keys with
    | .str _ =>
      .unknownKeys (((key :: keys).filterMap keyText?).mergeSort fun s t => !t.before s)
    | other => .unlistedKey other.sort

def checkKeys (entries : List (Atom × Datum)) : Except ConfigFault Unit :=
  match (entries.map Prod.fst).filter fun k => !isKnownKey k with
  | [] => .ok ()
  | key :: keys => .error (unknownFault key keys)

/-! ## Scalars -/

/-- The text of a field of an entry. -/
def requiredText (entries : List (Atom × Datum)) (key : String) : Except EntryFault CodeText :=
  match Yaml.lookup? entries key with
  | none => .error (.missing key)
  | some (.atom (.str text)) => .ok text
  | some _ => .error (.notText key)

/-- The text of a field that may be left out, but then is not to be there at all. -/
def optionalText (entries : List (Atom × Datum)) (key : String) :
    Except EntryFault (Option CodeText) :=
  if (Yaml.lookup? entries key).isNone then .ok none else some <$> requiredText entries key

/-- The name that a text gives to a scalar. -/
def scalarName (text : CodeText) : Except EntryFault String :=
  match text.toString?.filter isPublicName with
  | some name => .ok name
  | none => .error (.badName text)

namespace CustomScalar

/-- The scalar that the fields of an entry give. -/
def ofEntries (entries : List (Atom × Datum)) : Except EntryFault CustomScalar := do
  let name ← scalarName (← requiredText entries nameKey)
  return own name (← optionalText entries descriptionKey) (← optionalText entries specifiedByKey)

/-- The scalar that an entry of the list gives. -/
def ofDatum (d : Data) (entry : Datum) : Except EntryFault CustomScalar :=
  match entry with
  | .atom (.str text) => do return own (← scalarName text) none none
  | other =>
    match d.entries? other with
    | some entries => ofEntries entries
    | none => .error .notEntry

end CustomScalar

/-- The scalars that a list gives, of which the first has the given index. A name must not occur
twice. -/
def scalarsFrom (d : Data) :
    Nat → List String → List Datum → Except ConfigFault (List CustomScalar)
  | _, _, [] => .ok []
  | index, seen, entry :: rest => do
    let s ← (CustomScalar.ofDatum d entry).mapError (.entry index)
    if seen.contains s.name then throw (.duplicate s.name)
    return s :: (← scalarsFrom d (index + 1) (s.name :: seen) rest)

/-! ## Options -/

/-- Whether unions of texts are enumerations, which they are not unless it is said. -/
def enumsFlag (entries : List (Atom × Datum)) : Except ConfigFault Bool :=
  match Yaml.lookup? entries enumsKey with
  | none => .ok false
  | some (.atom (.bool flag)) => .ok flag
  | some _ => .error .notBoolean

/-- The list of scalars, which is empty unless it is there. -/
def scalarList (d : Data) (entries : List (Atom × Datum)) : Except ConfigFault (List Datum) :=
  match Yaml.lookup? entries scalarsKey with
  | none => .ok []
  | some list =>
    match d.items? list with
    | some items => .ok items
    | none => .error .notList

namespace CompileOptions

/-- The options that data give. -/
def ofData (d : Data) : Except ConfigFault CompileOptions :=
  match d.root with
  | .atom .null => .ok standard
  | root =>
    match d.entries? root with
    | none => .error .notMapping
    | some entries => do
      checkKeys entries
      let unionsAsEnums ← enumsFlag entries
      let scalars ← scalarsFrom d 0 [] (← scalarList d entries)
      return ⟨scalars, none, unionsAsEnums⟩

/-- The options that the text of a file gives. The label stands for the file in messages. -/
def ofText (label text : String) : Except ConfigError CompileOptions :=
  ((Yaml.read text).mapError .notYaml >>= ofData).mapError fun fault => ⟨label, fault⟩

end CompileOptions

end DeclaredSchema
