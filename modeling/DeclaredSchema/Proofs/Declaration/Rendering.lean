import DeclaredSchema.Declaration.OfTokens
import DeclaredSchema.Proofs.Declaration.Size
import DeclaredSchema.Proofs.Token.Writing

/-!
# Declaration files as texts

A file that is given by its declarations can be written down in more than one way. What is left
open is how a member ends, whether a member with a function type is written as a method, which names
stand between quotes, and which blanks stand between the words. A style settles all of it, for each
member on its own.

Parentheses are written where the grammar needs them: around an alternative or an element that is a
union or a function type. So what a type expression is written as depends on its context, and it is
a `Phrase` first.

Not every value of the types of a file is a file. Names have to be names, a union has at least two
alternatives, no comment is written down, and neither are numbers with a fraction.

## Main definitions

* `MemberStyle`, `Style` — what is left open
* `Phrase`, `TypeExpr.phrase` — a type expression in words
* `SourceUnit.words`, `SourceUnit.render` — a file in words, and its text
* `SourceUnit.IsWritable` — what can be written down
* `SourceUnit.IsReadable` — no integer is too long to be read
* `SourceUnit.unplaced` — a file without lines and columns
-/

namespace DeclaredSchema

open Rendering

namespace Rendering

/-! ### What is left open -/

/-- What stands behind a member; between two members blanks are enough. -/
inductive Ending where
  | semicolon | comma | blank
  deriving DecidableEq, Repr

/-- How a member is written: how it ends, whether it is a method if it has a function type, and
whether its name stands between quotes though it could do without. -/
structure MemberStyle where
  ending : Ending
  isMethod : Bool
  isQuoted : Bool
  deriving DecidableEq, Repr

/-- How a file is written. A member is known by its place: the number of the declaration comes last,
and the innermost step first. -/
structure Style where
  member : List Nat → MemberStyle
  layout : Nat → List Blank

/-! ### Words of the parts of files -/

/-- The word of a keyword. -/
def keyword (k : Keyword) : Word := .name k.text

/-- A word that may be missing. -/
def optionally (w : Word) (found : Bool) : List Word := if found then [w] else []

/-- Lists of words with a mark between any two of them. -/
def joined (symbol : Symbol) : List (List Word) → List Word
  | [] => []
  | ws :: rest => ws ++ rest.flatMap (.mark symbol :: ·)

theorem joined_singleton (symbol : Symbol) (ws : List Word) : joined symbol [ws] = ws :=
  List.append_nil ws

def enclosed (opening closing : Symbol) (ws : List Word) : List Word :=
  .mark opening :: ws ++ [.mark closing]

def Ending.words : Ending → List Word
  | semicolon => [.mark .semicolon]
  | comma => [.mark .comma]
  | blank => []

/-- The parts of a qualified name. -/
def nameParts (name : String) : List String := (name.toList.splitOn '.').map String.ofList

def nameWords (name : String) : List Word :=
  joined .dot ((nameParts name).map fun part => [.name part])

/-- The name of a member. What is no name is written between quotes in any case. -/
def memberWord (isQuoted : Bool) (name : String) : Word :=
  if isQuoted || !isWord name then .quoted name else .name name

/-- A literal in words; there are none for a number with a fraction. -/
def literalWords : Literal → List Word
  | .str text => [.quoted text]
  | .int value => optionally (.mark .minus) (value < 0) ++ [.digits value.natAbs]
  | .float _ => []
  | .bool value => [keyword (if value then .trueWord else .falseWord)]

/-! ### Words of types -/

/-- A type expression in words, as far as its context does not matter. -/
inductive Phrase where
  | closed (words : List Word)
  | union (words : List Word)
  | function (parameters result : List Word)

namespace Phrase

def words : Phrase → List Word
  | closed ws | union ws => ws
  | function parameters result => parameters ++ .mark .arrow :: result

/-- The words of an alternative of a union, or of the element of an array. -/
def part : Phrase → List Word
  | closed ws => ws
  | union ws => enclosed .parenOpen .parenClose ws
  | function parameters result =>
    enclosed .parenOpen .parenClose (parameters ++ .mark .arrow :: result)

/-- The words behind the name of a member. -/
def signature (isMethod : Bool) : Phrase → List Word
  | closed ws | union ws => .mark .colon :: ws
  | function parameters result =>
    if isMethod then parameters ++ .mark .colon :: result
    else .mark .colon :: (parameters ++ .mark .arrow :: result)

end Phrase

def argumentWords (phrases : List Phrase) : List Word :=
  if phrases.isEmpty then []
  else enclosed .angleOpen .angleClose (joined .comma (phrases.map Phrase.words))

/-- What stands before the type of a member. -/
def memberHead (isQuoted isReadonly : Bool) (name : String) (isOptional : Bool) : List Word :=
  optionally (keyword .readonlyWord) isReadonly ++ memberWord isQuoted name ::
    optionally (.mark .question) isOptional

/-- What stands before the type of a parameter, up to the colon. -/
def parameterHead (name : String) (isOptional : Bool) : List Word :=
  .name name :: optionally (.mark .question) isOptional

end Rendering

section

variable (style : List Nat → MemberStyle)

mutual

/-- The words of the type expression at a place. -/
def TypeExpr.phrase (path : List Nat) : TypeExpr → Phrase
  | .keyword word => .closed [.name word.text]
  | .literal value => .closed (literalWords value)
  | .reference name arguments _ =>
    .closed (nameWords name ++ argumentWords (phrases path 0 arguments))
  | .array element =>
    .closed ((element.phrase (0 :: path)).part ++ [.mark .bracketOpen, .mark .bracketClose])
  | .union members => .union (joined .pipe ((phrases path 0 members).map Phrase.part))
  | .object members _ => .closed (enclosed .braceOpen .braceClose (memberList path 0 members))
  | .function parameters result =>
    .function (enclosed .parenOpen .parenClose (joined .comma (parameterList path 1 parameters)))
      (result.phrase (0 :: path)).words

/-- The phrases of the types at a place from the `i`-th on. -/
def phrases (path : List Nat) (i : Nat) : List TypeExpr → List Phrase
  | [] => []
  | e :: rest => e.phrase (i :: path) :: phrases path (i + 1) rest

def memberList (path : List Nat) (i : Nat) : List (Property TypeExpr) → List Word
  | [] => []
  | p :: rest => Property.words (i :: path) p ++ memberList path (i + 1) rest

def Property.words (path : List Nat) : Property TypeExpr → List Word
  | ⟨name, type, optional, readonly, _, _⟩ =>
    memberHead (style path).isQuoted readonly name optional ++
      (type.phrase path).signature (style path).isMethod ++ (style path).ending.words

def parameterList (path : List Nat) (i : Nat) : List (Parameter TypeExpr) → List (List Word)
  | [] => []
  | p :: rest => Parameter.words (i :: path) p :: parameterList path (i + 1) rest

def Parameter.words (path : List Nat) : Parameter TypeExpr → List Word
  | ⟨name, type, optional⟩ =>
    parameterHead name optional ++ .mark .colon :: (type.phrase path).words

end

example : String.ofList (lineUp (fun _ => []) (TypeExpr.phrase (fun _ => ⟨.blank, true, false⟩) []
    (.array (.union [.literal (.str "\n"), .literal (.int (-1))]))).words) = "(\"\\n\"|-1)[]" := by
  decide +kernel

/-! ### Words of declarations -/

def EnumEntry.words (isQuoted : Bool) (x : EnumEntry) : List Word :=
  memberWord isQuoted x.name :: x.value.elim [] (.mark .equals :: literalWords ·)

def enumEntryList (path : List Nat) (i : Nat) : List EnumEntry → List (List Word)
  | [] => []
  | x :: rest => x.words (style (i :: path)).isQuoted :: enumEntryList path (i + 1) rest

/-- The names behind the name of an interface. -/
def baseWords (bases : List String) : List Word :=
  if bases.isEmpty then []
  else Rendering.keyword .extendsWord :: joined .comma (bases.map nameWords)

def Declaration.words (path : List Nat) : Declaration → List Word
  | .interface d =>
    Rendering.keyword .interfaceWord :: .name d.name ::
      (baseWords d.bases ++ enclosed .braceOpen .braceClose (memberList style path 0 d.members))
  | .typeAlias d =>
    Rendering.keyword .typeWord :: .name d.name :: .mark .equals ::
      ((d.type.phrase style path).words ++ [.mark .semicolon])
  | .enumeration d =>
    Rendering.keyword .enumWord :: .name d.name ::
      enclosed .braceOpen .braceClose (joined .comma (enumEntryList style path 0 d.members))

def declarationList (i : Nat) : List Declaration → List Word
  | [] => []
  | d :: rest => d.words style [i] ++ declarationList (i + 1) rest

end

def Import.words (i : Import) : List Word :=
  Rendering.keyword .importWord ::
    (enclosed .braceOpen .braceClose (joined .comma (i.names.map fun name => [.name name])) ++
      [Rendering.keyword .fromWord, .quoted i.source, .mark .semicolon])

/-- The words of a file: its imports, then its declarations. -/
def SourceUnit.words (style : List Nat → MemberStyle) (u : SourceUnit) : List Word :=
  u.imports.flatMap Import.words ++ declarationList style 0 u.declarations

/-- A file as a text. -/
def SourceUnit.render (style : Style) (u : SourceUnit) : String :=
  written style.layout (u.words style.member)

/-! ### What can be written down -/

/-- A word that is no keyword. -/
def IsIdentifier (name : String) : Prop := isWord name = true ∧ Keyword.ofText? name = none

instance : DecidablePred IsIdentifier := fun _ => inferInstanceAs (Decidable (_ ∧ _))

/-- The first part of a qualified name. -/
def nameHead (name : String) : String := (nameParts name).headD ""

/-- An identifier, with names behind points. -/
def IsQualified (name : String) : Prop :=
  IsIdentifier (nameHead name) ∧ ∀ part ∈ nameParts name, isWord part = true

instance : DecidablePred IsQualified := fun _ => inferInstanceAs (Decidable (_ ∧ _))

/-- A word that starts a reference. -/
def StartsReference (head : String) : Prop :=
  TypeKeyword.ofIdentifier? head = none ∧ head ∉ OfTokens.operatorWords

instance : DecidablePred StartsReference := fun _ => inferInstanceAs (Decidable (_ ∧ _))

/-- All expressions in an expression, itself included, have a property. -/
inductive TypeExpr.All (P : TypeExpr → Prop) : TypeExpr → Prop
  | mk {e : TypeExpr} (h : P e) (hparts : ∀ c ∈ e.children, TypeExpr.All P c) : TypeExpr.All P e

namespace TypeExpr

variable {P : TypeExpr → Prop}

theorem all_iff {e : TypeExpr} : e.All P ↔ P e ∧ ∀ c ∈ e.children, c.All P :=
  ⟨fun ⟨h, hparts⟩ => ⟨h, hparts⟩, fun h => .mk h.1 h.2⟩

@[simp] theorem all_keyword {word : TypeKeyword} :
    (keyword word).All P ↔ P (.keyword word) := by
  rw [all_iff, children]
  simp

@[simp] theorem all_literal {value : Literal} :
    (literal value).All P ↔ P (.literal value) := by
  rw [all_iff, children]
  simp

@[simp] theorem all_reference {name : String} {es : List TypeExpr} {position : Position} :
    (reference name es position).All P ↔ P (.reference name es position) ∧ ∀ e ∈ es, e.All P :=
  all_iff

@[simp] theorem all_array {e : TypeExpr} :
    (array e).All P ↔ P (.array e) ∧ e.All P := by
  rw [all_iff, children, List.forall_mem_singleton]

@[simp] theorem all_union {es : List TypeExpr} :
    (union es).All P ↔ P (.union es) ∧ ∀ e ∈ es, e.All P :=
  all_iff

@[simp] theorem all_object {ms : List (Property TypeExpr)} {position : Position} :
    (object ms position).All P ↔ P (.object ms position) ∧ ∀ m ∈ ms, m.type.All P := by
  rw [all_iff, children, List.forall_mem_map]

@[simp] theorem all_function {ps : List (Parameter TypeExpr)} {e : TypeExpr} :
    (function ps e).All P ↔ P (.function ps e) ∧ e.All P ∧ ∀ p ∈ ps, p.type.All P := by
  rw [all_iff, children, List.forall_mem_cons, List.forall_mem_map]

end TypeExpr

/-- An expression can be written down, if its parts can. -/
def TypeExpr.IsWritable : TypeExpr → Prop
  | .keyword _ | .array _ => True
  | .literal value => ∀ x, value ≠ .float x
  | .reference name _ _ => IsQualified name ∧ StartsReference (nameHead name)
  | .union members => 2 ≤ members.length
  | .object members _ => ∀ p ∈ members, p.doc = none
  | .function parameters _ => ∀ p ∈ parameters, isWord p.name = true

/-- A member of an enumeration has a text or an integer as its value, if any. -/
def EnumEntry.IsWritable (x : EnumEntry) : Prop :=
  x.doc = none ∧ ∀ v ∈ x.value, (∃ text, v = .str text) ∨ ∃ i, v = .int i

def Declaration.IsWritable : Declaration → Prop
  | .interface d => IsIdentifier d.name ∧ d.doc = none ∧ (∀ base ∈ d.bases, IsQualified base) ∧
      (TypeExpr.object d.members d.position).All TypeExpr.IsWritable
  | .typeAlias d => IsIdentifier d.name ∧ d.doc = none ∧ d.type.All TypeExpr.IsWritable
  | .enumeration d => IsIdentifier d.name ∧ d.doc = none ∧ ∀ x ∈ d.members, x.IsWritable

structure SourceUnit.IsWritable (u : SourceUnit) : Prop where
  imports : ∀ i ∈ u.imports, ∀ name ∈ i.names, IsIdentifier name
  declarations : ∀ d ∈ u.declarations, d.IsWritable

/-- An integer with more digits than the limit cannot be read. -/
def Literal.IsReadable : Literal → Prop
  | .int value => value.natAbs < 10 ^ digitLimit
  | _ => True

def TypeExpr.IsReadable (e : TypeExpr) : Prop := ∀ v ∈ e.literal?, v.IsReadable

def Declaration.IsReadable : Declaration → Prop
  | .interface d => (TypeExpr.object d.members d.position).All TypeExpr.IsReadable
  | .typeAlias d => d.type.All TypeExpr.IsReadable
  | .enumeration d => ∀ x ∈ d.members, ∀ v ∈ x.value, v.IsReadable

def SourceUnit.IsReadable (u : SourceUnit) : Prop := ∀ d ∈ u.declarations, d.IsReadable

/-! ### Files without places -/

mutual

def TypeExpr.unplaced : TypeExpr → TypeExpr
  | .keyword word => .keyword word
  | .literal value => .literal value
  | .reference name arguments _ => .reference name (unplacedTypes arguments) .start
  | .array element => .array element.unplaced
  | .union members => .union (unplacedTypes members)
  | .object members _ => .object (unplacedProperties members) .start
  | .function parameters result => .function (unplacedParameters parameters) result.unplaced

def unplacedTypes : List TypeExpr → List TypeExpr
  | [] => []
  | e :: rest => e.unplaced :: unplacedTypes rest

def unplacedProperties : List (Property TypeExpr) → List (Property TypeExpr)
  | [] => []
  | p :: rest => Property.unplaced p :: unplacedProperties rest

def Property.unplaced : Property TypeExpr → Property TypeExpr
  | ⟨name, type, optional, readonly, doc, _⟩ =>
    ⟨name, type.unplaced, optional, readonly, doc, .start⟩

def unplacedParameters : List (Parameter TypeExpr) → List (Parameter TypeExpr)
  | [] => []
  | p :: rest => Parameter.unplaced p :: unplacedParameters rest

def Parameter.unplaced : Parameter TypeExpr → Parameter TypeExpr
  | ⟨name, type, optional⟩ => ⟨name, type.unplaced, optional⟩

end

def Declaration.unplaced : Declaration → Declaration
  | .interface d =>
    .interface { d with members := unplacedProperties d.members, position := .start }
  | .typeAlias d => .typeAlias { d with type := d.type.unplaced, position := .start }
  | .enumeration d => .enumeration { d with position := .start }

/-- A file with one place for everything in it. -/
def SourceUnit.unplaced (u : SourceUnit) : SourceUnit :=
  { u with declarations := u.declarations.map Declaration.unplaced }

end DeclaredSchema
