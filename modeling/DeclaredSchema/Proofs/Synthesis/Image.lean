import DeclaredSchema.Proofs.KeyedList
import DeclaredSchema.Synthesis

/-!
# What a graph of descriptors stands for

A type of the graph, used in a mode, stands for a type of the schema. Which one, is said here
without any order of visits and without a table under construction: `T r mode` is the type for `r`
in `mode`, and every definition below reads `T` at the types that a descriptor mentions. Cycles do
no harm, since `T` is given and not computed.

## Main definitions

* `Mentions`, `Reaches` — what a descriptor mentions in a mode, and what the roots reach
* `counted` — the members of a record that become fields or arguments
* `fieldImage`, `argumentImage`, `definitionImage` — what members and descriptors stand for
* `ownName?`, `IsNameOf` — the names of types
* `scalarNameOf?` — the name of the scalar of a primitive
-/

namespace DeclaredSchema

/-- The shape in a slot. -/
def Graph.shapeAt? (g : Graph) (slot : Nat) : Option Shape := g[slot]?.map Descriptor.shape

/-- The documentation of a shape. -/
def Shape.doc : Shape → Option String
  | record _ doc _ | inlineRecord _ doc _ | union _ doc _ | enumeration _ doc _ => doc

namespace Synthesis

/-! ### The members that count -/

/-- The members that become fields or arguments. -/
def visible (ms : List Member) : List Member := ms.filter fun m => m.name ≠ typenameMember

/-- The same, each name once: at the place of its first member, with what its last member says. -/
def counted (ms : List Member) : List Member := lastOfEach Member.name (visible ms)

/-- The members of the record that holds the arguments of `m`. -/
def argumentMembers (g : Graph) (m : Member) : List Member :=
  match m.arguments with
  | some bag => g.membersAt bag
  | none => []

/-- Whether a union consists of texts. -/
def isTexts (alternatives : List TypeRef) : Bool := alternatives.all fun r => r.text?.isSome

/-! ### What is reachable -/

/-- What the descriptor in a slot mentions when it is used in a mode. Arguments are input whatever
the mode of the record is, and an input type has none. -/
inductive Mentions (g : Graph) (slot : Nat) : Mode → TypeRef → Mode → Prop
  | member {mode : Mode} {s : Shape} {ms : List Member} {m : Member}
      (hs : g.shapeAt? slot = some s) (hms : s.members? = some ms) (hm : m ∈ visible ms) :
      Mentions g slot mode m.type mode
  | argument {s : Shape} {ms : List Member} {m a : Member} (hs : g.shapeAt? slot = some s)
      (hms : s.members? = some ms) (hm : m ∈ visible ms)
      (ha : a ∈ visible (argumentMembers g m)) : Mentions g slot .output a.type .input
  | alternative {name doc : Option String} {alternatives : List TypeRef} {r : TypeRef}
      (hs : g.shapeAt? slot = some (.union name doc alternatives))
      (htexts : isTexts alternatives = false) (hr : r ∈ alternatives) :
      Mentions g slot .output r .output

/-- A listed record with the name of a root. -/
def IsRoot (g : Graph) (listed : List TypeRef) (name : String) (slot : Nat) : Prop :=
  .node slot ∈ listed ∧ ∃ doc ms, g.shapeAt? slot = some (.record name doc ms)

/-- What is reached from the roots, which are output. -/
inductive Reaches (g : Graph) (listed : List TypeRef) : TypeRef → Mode → Prop
  | query {slot : Nat} (h : IsRoot g listed queryRoot slot) : Reaches g listed (.node slot) .output
  | mutation {slot : Nat} (h : IsRoot g listed mutationRoot slot) :
      Reaches g listed (.node slot) .output
  | element {r : TypeRef} {mode : Mode} (h : Reaches g listed (.array r) mode) :
      Reaches g listed r mode
  | mention {slot : Nat} {mode : Mode} {r : TypeRef} {mode' : Mode}
      (h : Reaches g listed (.node slot) mode) (hr : Mentions g slot mode r mode') :
      Reaches g listed r mode'

/-! ### Definitions -/

section Image

variable (g : Graph) (T : TypeRef → Mode → SchemaType)

/-- The type of a member: absent values are ruled out unless the member is optional or its type
admits them. -/
def wrapped (m : Member) (t : SchemaType) : SchemaType :=
  if m.optional = true ∨ m.nullableType = true then t else .nonNull t

/-- The argument, or the field of an input type, that a member stands for. -/
def argumentImage (m : Member) : InputValue :=
  ⟨m.name, wrapped m (T m.type .input), m.default, m.doc⟩

/-- The field that a member stands for. -/
def fieldImage (m : Member) : Field :=
  ⟨m.name, wrapped m (T m.type .output),
    (counted (argumentMembers g m)).map (argumentImage T), m.doc⟩

/-- The definition that a record with these members stands for. -/
def recordImage (mode : Mode) (ms : List Member) : TypeDefinition :=
  match mode with
  | .output => .object ((counted ms).map (fieldImage g T))
  | .input => .inputObject ((counted ms).map (argumentImage T))

/-- The definition that a shape stands for. -/
def definitionImage (mode : Mode) : Shape → TypeDefinition
  | .record _ _ ms | .inlineRecord _ _ ms => recordImage g T mode ms
  | .union _ _ alternatives =>
    if isTexts alternatives then .scalar (.texts (alternatives.filterMap TypeRef.text?))
    else .union (alternatives.map fun r => (T r .output).baseName)
  | .enumeration _ _ members => .enumeration (members.filterMap TypeRef.text?).eraseDups

end Image

/-! ### Names -/

/-- The text of the first literal member that names an inline record. -/
def firstTypename? (ms : List Member) : Option String :=
  ((ms.filter fun m => m.name = typenameMember).filterMap fun m => m.type.text?).head?

/-- The name that a shape has by itself. -/
def ownName? (mode : Mode) : Shape → Option String
  | .record name _ _ => some (name ++ ending mode)
  | .inlineRecord _ _ ms => (firstTypename? ms).map fun text => text ++ ending mode
  | .union name _ alternatives =>
    if isTexts alternatives then
      some ((givenName name).getD (derivedName (alternatives.filterMap TypeRef.text?)))
    else givenName name
  | .enumeration name _ _ => some name

/-- What an invented name starts with. -/
def stem (mode : Mode) : Shape → String
  | .union .. => "AnonymousUnion"
  | _ => "Anonymous" ++ ending mode

/-- Whether `n` is the invented name number `k` for a shape without a name of its own. -/
def IsNumbered (mode : Mode) (s : Shape) (n : String) (k : Nat) : Prop :=
  ownName? mode s = none ∧ 0 < k ∧ n = stem mode s ++ toString k

/-- Whether `n` is a name for a shape: the one it has, or an invented one if it has none. -/
def IsNameOf (mode : Mode) (s : Shape) (n : String) : Prop :=
  ownName? mode s = some n ∨ ∃ k, IsNumbered mode s n k

/-- The custom scalar that the options give for a primitive: the one of its raw name, the one of its
name, or what the factory makes. -/
def customOf? (options : CompileOptions) (p : Primitive) : Option CustomScalar :=
  match options.scalar? p.raw, options.scalar? p.name, options.factory with
  | some s, _, _ | none, some s, _ => some s
  | none, none, some make => (make p).toOption.join
  | none, none, none => none

/-- The name of the scalar of a primitive. -/
def scalarNameOf? (options : CompileOptions) (p : Primitive) : Option String :=
  if p.raw = BuiltIn.id.name then some BuiltIn.id.name
  else
    match customOf? options p with
    | some s => some s.name
    | none => (builtIn? p).map BuiltIn.name

/-! ### Small facts -/

theorem mem_visible {ms : List Member} {m : Member} :
    m ∈ visible ms ↔ m ∈ ms ∧ m.name ≠ typenameMember := by
  simp [visible]

@[simp] theorem visible_nil : visible [] = [] := rfl

theorem visible_cons (m : Member) (ms : List Member) :
    visible (m :: ms) = if m.name = typenameMember then visible ms else m :: visible ms := by
  by_cases h : m.name = typenameMember <;> simp [visible, h]

theorem mem_visible_of_mem_counted {ms : List Member} {m : Member} (h : m ∈ counted ms) :
    m ∈ visible ms :=
  mem_of_mem_lastOfEach h

theorem typenameOf_eq (ms : List Member) : typenameOf ms = firstTypename? ms := by
  induction ms with
  | nil => rfl
  | cons m rest ih =>
    by_cases hm : m.name = typenameMember
    · cases ht : m.type.text? with
      | none => simpa [typenameOf, firstTypename?, hm, ht] using ih
      | some text => simp [typenameOf, firstTypename?, hm, ht]
    · simpa [typenameOf, firstTypename?, hm] using ih

theorem toString_injective {k l : Nat} (h : toString k = toString l) : k = l := by
  have hdigits : Nat.toDigits 10 k = Nat.toDigits 10 l := by
    rw [← Nat.toList_repr, ← Nat.toList_repr]
    exact congrArg String.toList h
  rw [← Nat.ofDigitChars_toDigits (b := 10) (n := k) (by decide) (by decide), hdigits,
    Nat.ofDigitChars_toDigits (by decide) (by decide)]

/-- A name has one number at most. -/
theorem IsNumbered.unique {mode : Mode} {s : Shape} {n : String} {k l : Nat}
    (h : IsNumbered mode s n k) (h' : IsNumbered mode s n l) : k = l :=
  toString_injective ((String.append_right_inj _).mp (h.2.2.symm.trans h'.2.2))

/-- A shape that does not change with the mode: an enumeration, or a union of texts. -/
def isModeless : Shape → Bool
  | .union _ _ alternatives => isTexts alternatives
  | .enumeration .. => true
  | _ => false

/-- Such a shape has a name of its own, so it gets no invented one. -/
theorem IsNumbered.isModeless {mode : Mode} {s : Shape} {n : String} {k : Nat}
    (h : IsNumbered mode s n k) : isModeless s = false := by
  have hnone := h.1
  cases s with
  | record | inlineRecord => rfl
  | enumeration => cases hnone
  | union name doc alternatives =>
    cases htexts : isTexts alternatives with
    | false => exact htexts
    | true => simp [ownName?, htexts] at hnone

theorem ownName?_of_isModeless {s : Shape} (h : isModeless s = true) (mode mode' : Mode) :
    ownName? mode s = ownName? mode' s := by
  cases s <;> simp_all [isModeless, ownName?]

/-! ### Records -/

theorem definitionImage_of_members? {s : Shape} {ms : List Member} (h : s.members? = some ms)
    (g : Graph) (T : TypeRef → Mode → SchemaType) (mode : Mode) :
    definitionImage g T mode s = recordImage g T mode ms := by
  cases s <;> simp_all [Shape.members?, definitionImage]

/-- What a record mentions are the types of its members and, as output, of their arguments. -/
theorem Mentions.of_members? {g : Graph} {slot : Nat} {mode mode' : Mode} {r : TypeRef} {s : Shape}
    {ms : List Member} (h : Mentions g slot mode r mode') (hs : g.shapeAt? slot = some s)
    (hms : s.members? = some ms) : ∃ m ∈ visible ms, r = m.type ∧ mode' = mode ∨
      mode = .output ∧ mode' = .input ∧ ∃ a ∈ visible (argumentMembers g m), r = a.type := by
  cases h with
  | member hs' hms' hm =>
    obtain rfl := Option.some.inj (hs.symm.trans hs')
    obtain rfl := Option.some.inj (hms.symm.trans hms')
    exact ⟨_, hm, .inl ⟨rfl, rfl⟩⟩
  | argument hs' hms' hm ha =>
    obtain rfl := Option.some.inj (hs.symm.trans hs')
    obtain rfl := Option.some.inj (hms.symm.trans hms')
    exact ⟨_, hm, .inr ⟨rfl, rfl, _, ha, rfl⟩⟩
  | alternative hs' =>
    obtain rfl := Option.some.inj (hs.symm.trans hs')
    cases hms

theorem isModeless_of_members? {s : Shape} {ms : List Member} (h : s.members? = some ms) :
    isModeless s = false := by
  cases s <;> simp_all [Shape.members?, isModeless]

/-- Only records become types with fields. -/
theorem exists_members?_of_fields {g : Graph} {T : TypeRef → Mode → SchemaType} {mode : Mode}
    {s : Shape} {definition : TypeDefinition} (h : definitionImage g T mode s = definition)
    (hfields : (∃ fields, definition = .object fields) ∨ ∃ fields, definition = .inputObject fields) :
    ∃ ms, s.members? = some ms ∧ recordImage g T mode ms = definition := by
  subst h
  cases s with
  | record name doc ms => exact ⟨ms, rfl, rfl⟩
  | inlineRecord location doc ms => exact ⟨ms, rfl, rfl⟩
  | enumeration name doc members => rcases hfields with ⟨fields, h⟩ | ⟨fields, h⟩ <;> cases h
  | union name doc alternatives =>
    rw [definitionImage] at hfields
    split at hfields
    · rcases hfields with ⟨fields, h⟩ | ⟨fields, h⟩ <;> cases h
    · rcases hfields with ⟨fields, h⟩ | ⟨fields, h⟩ <;> cases h

/-- Only records used as output become object types. -/
theorem members?_of_object {g : Graph} {T : TypeRef → Mode → SchemaType} {mode : Mode} {s : Shape}
    {fields : List Field} (h : definitionImage g T mode s = .object fields) :
    mode = .output ∧ ∃ ms, s.members? = some ms ∧ fields = (counted ms).map (fieldImage g T) := by
  obtain ⟨ms, hms, himage⟩ := exists_members?_of_fields h (.inl ⟨_, rfl⟩)
  cases mode with
  | input => cases himage
  | output => exact ⟨rfl, ms, hms, (TypeDefinition.object.inj himage).symm⟩

/-- Only records used as input become input types. -/
theorem members?_of_inputObject {g : Graph} {T : TypeRef → Mode → SchemaType} {mode : Mode}
    {s : Shape} {fields : List InputValue} (h : definitionImage g T mode s = .inputObject fields) :
    mode = .input ∧ ∃ ms, s.members? = some ms ∧ fields = (counted ms).map (argumentImage T) := by
  obtain ⟨ms, hms, himage⟩ := exists_members?_of_fields h (.inr ⟨_, rfl⟩)
  cases mode with
  | input => exact ⟨rfl, ms, hms, (TypeDefinition.inputObject.inj himage).symm⟩
  | output => cases himage

/-- Only unions that do not consist of texts become union types. -/
theorem alternatives_of_union {g : Graph} {T : TypeRef → Mode → SchemaType} {mode : Mode}
    {s : Shape} {members : List String} (h : definitionImage g T mode s = .union members) :
    ∃ name doc alternatives, s = .union name doc alternatives ∧ isTexts alternatives = false ∧
      members = alternatives.map fun r => (T r .output).baseName := by
  cases s with
  | record name doc ms => cases mode <;> cases h
  | inlineRecord location doc ms => cases mode <;> cases h
  | enumeration name doc members => cases h
  | union name doc alternatives =>
    rw [definitionImage] at h
    split at h
    · cases h
    · next htexts =>
      exact ⟨name, doc, alternatives, rfl, by simpa using htexts, (TypeDefinition.union.inj h).symm⟩

end Synthesis

end DeclaredSchema
