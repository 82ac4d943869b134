import DeclaredSchema.Descriptor
import DeclaredSchema.Proofs.KeyedList
import Mathlib.Data.List.Forall2

/-!
# Graphs that differ in their slots

Two tables may hold the same descriptors in different slots. `R` says which slots correspond; two
types are alike if they are the same up to corresponding slots, and so on for members, shapes and
graphs. What an inline record is called in messages may differ, since it only helps to find it.

## Main definitions

* `TypeRef.Alike`, `Member.Alike`, `Shape.Alike` — the same up to slots
* `Graph.Alike` — tables whose corresponding slots hold shapes that are alike

## Main results

* `Graph.Alike.flip` — the relation has no direction
* `forall₂_lastOfEach` — the last entries of each name are alike
-/

namespace DeclaredSchema

/-- Two types are the same up to corresponding slots. -/
inductive TypeRef.Alike (R : Nat → Nat → Prop) : TypeRef → TypeRef → Prop
  | primitive {p : Primitive} : Alike R (.primitive p) (.primitive p)
  | array {element element' : TypeRef} (h : Alike R element element') :
      Alike R (.array element) (.array element')
  | untypedArray : Alike R .untypedArray .untypedArray
  | date : Alike R .date .date
  | node {slot slot' : Nat} (h : R slot slot') : Alike R (.node slot) (.node slot')
  | foreign {text : String} : Alike R (.foreign text) (.foreign text)

/-- Two members are the same up to corresponding slots. -/
structure Member.Alike (R : Nat → Nat → Prop) (m m' : Member) : Prop where
  name : m.name = m'.name
  type : m.type.Alike R m'.type
  doc : m.doc = m'.doc
  optional : m.optional = m'.optional
  nullableType : m.nullableType = m'.nullableType
  default : m.default = m'.default
  arguments : Option.Rel R m.arguments m'.arguments

/-- Two shapes are the same up to corresponding slots and the locations of inline records. -/
inductive Shape.Alike (R : Nat → Nat → Prop) : Shape → Shape → Prop
  | record {name : String} {doc : Option String} {ms ms' : List Member}
      (h : List.Forall₂ (Member.Alike R) ms ms') : Alike R (.record name doc ms) (.record name doc ms')
  | inlineRecord {location location' : String} {doc : Option String} {ms ms' : List Member}
      (h : List.Forall₂ (Member.Alike R) ms ms') :
      Alike R (.inlineRecord location doc ms) (.inlineRecord location' doc ms')
  | union {name doc : Option String} {types types' : List TypeRef}
      (h : List.Forall₂ (TypeRef.Alike R) types types') :
      Alike R (.union name doc types) (.union name doc types')
  | enumeration {name : String} {doc : Option String} {values values' : List TypeRef}
      (h : List.Forall₂ (TypeRef.Alike R) values values') :
      Alike R (.enumeration name doc values) (.enumeration name doc values')

/-- Corresponding slots are there in both tables and hold shapes that are alike, and no slot
corresponds to two. -/
structure Graph.Alike (R : Nat → Nat → Prop) (g g' : Graph) : Prop where
  shapes : ∀ {slot slot'}, R slot slot' → ∃ d d', g[slot]? = some d ∧ g'[slot']? = some d' ∧
    d.shape.Alike R d'.shape
  right_unique : ∀ {slot slot' other}, R slot slot' → R slot other → slot' = other
  left_unique : ∀ {slot slot' other}, R slot slot' → R other slot' → slot = other

variable {R : Nat → Nat → Prop}

/-! ### Types -/

namespace TypeRef.Alike

variable {t t' : TypeRef}

theorem primitive?_eq (h : t.Alike R t') : t.primitive? = t'.primitive? := by
  cases h <;> rfl

theorem text?_eq (h : t.Alike R t') : t.text? = t'.text? := by
  rw [TypeRef.text?, TypeRef.text?, h.primitive?_eq]

theorem flip (h : t.Alike R t') : t'.Alike (Function.swap R) t := by
  induction h with
  | primitive => exact .primitive
  | array _ ih => exact .array ih
  | untypedArray => exact .untypedArray
  | date => exact .date
  | node h => exact .node h
  | foreign => exact .foreign

end TypeRef.Alike

theorem all_eq_of_forall₂ {α β : Type} {P : α → β → Prop} {f : α → Bool} {f' : β → Bool}
    (hf : ∀ x y, P x y → f x = f' y) {xs : List α} {ys : List β} (h : List.Forall₂ P xs ys) :
    xs.all f = ys.all f' := by
  induction h with
  | nil => rfl
  | cons hx _ ih => rw [List.all_cons, List.all_cons, hf _ _ hx, ih]

theorem filterMap_eq_of_forall₂ {α β γ : Type} {P : α → β → Prop} {f : α → Option γ}
    {f' : β → Option γ} (hf : ∀ x y, P x y → f x = f' y) {xs : List α} {ys : List β}
    (h : List.Forall₂ P xs ys) : xs.filterMap f = ys.filterMap f' := by
  induction h with
  | nil => rfl
  | cons hx _ ih => rw [List.filterMap_cons, List.filterMap_cons, hf _ _ hx, ih]

/-! ### Members -/

namespace Member.Alike

variable {m m' : Member}

theorem nullable_eq (h : m.Alike R m') : m.nullable = m'.nullable := by
  rw [Member.nullable, Member.nullable, h.optional, h.nullableType]

theorem flip (h : m.Alike R m') : m'.Alike (Function.swap R) m where
  name := h.name.symm
  type := h.type.flip
  doc := h.doc.symm
  optional := h.optional.symm
  nullableType := h.nullableType.symm
  default := h.default.symm
  arguments := by
    have hflip : ∀ {a b : Option Nat}, Option.Rel R a b → Option.Rel (Function.swap R) b a := by
      rintro _ _ (h | _)
      · exact .some h
      · exact .none
    exact hflip h.arguments

end Member.Alike

/-- Tables into which entries are put that are alike and have the same keys, stay alike. -/
theorem forall₂_insertByKey {α β : Type} {P : α → β → Prop} {key : α → String} {key' : β → String}
    (hkey : ∀ x y, P x y → key x = key' y) {x : α} {y : β} (hx : P x y) {xs : List α}
    {ys : List β} (h : List.Forall₂ P xs ys) :
    List.Forall₂ P (insertByKey key x xs) (insertByKey key' y ys) := by
  induction h with
  | nil => exact .cons hx .nil
  | cons hz hrest ih =>
    rw [insertByKey, insertByKey, hkey _ _ hx, hkey _ _ hz]
    split
    · exact .cons hx hrest
    · exact .cons hz ih

theorem forall₂_lastOfEach {α β : Type} {P : α → β → Prop} {key : α → String} {key' : β → String}
    (hkey : ∀ x y, P x y → key x = key' y) {xs : List α} {ys : List β}
    (h : List.Forall₂ P xs ys) : List.Forall₂ P (lastOfEach key xs) (lastOfEach key' ys) := by
  rw [← foldl_insertByKey, ← foldl_insertByKey]
  suffices hfold : ∀ acc acc', List.Forall₂ P acc acc' →
      List.Forall₂ P (xs.foldl (fun table x => insertByKey key x table) acc)
        (ys.foldl (fun table y => insertByKey key' y table) acc') from hfold [] [] .nil
  induction h with
  | nil => exact fun _ _ hacc => hacc
  | cons hx _ ih => exact fun _ _ hacc => ih _ _ (forall₂_insertByKey hkey hx hacc)

/-! ### Graphs -/

theorem Shape.Alike.flip {s s' : Shape} (h : s.Alike R s') : s'.Alike (Function.swap R) s := by
  cases h with
  | record h => exact .record (h.flip.imp fun _ _ hm => hm.flip)
  | inlineRecord h => exact .inlineRecord (h.flip.imp fun _ _ hm => hm.flip)
  | union h => exact .union (h.flip.imp fun _ _ ht => ht.flip)
  | enumeration h => exact .enumeration (h.flip.imp fun _ _ ht => ht.flip)

/-- The members of shapes that are alike are alike; what is no record has none. -/
theorem Shape.Alike.members {s s' : Shape} (h : s.Alike R s') :
    List.Forall₂ (Member.Alike R) s.members s'.members := by
  cases h with
  | record h | inlineRecord h => exact h
  | union | enumeration => exact .nil

namespace Graph.Alike

variable {g g' : Graph}

theorem flip (h : Graph.Alike R g g') : Graph.Alike (Function.swap R) g' g where
  shapes hR := by
    obtain ⟨d, d', hd, hd', halike⟩ := h.shapes hR
    exact ⟨d', d, hd', hd, halike.flip⟩
  right_unique := h.left_unique
  left_unique := h.right_unique

theorem membersAt (h : Graph.Alike R g g') {slot slot' : Nat} (hslot : R slot slot') :
    List.Forall₂ (Member.Alike R) (g.membersAt slot) (g'.membersAt slot') := by
  obtain ⟨d, d', hd, hd', halike⟩ := h.shapes hslot
  rw [Graph.membersAt, Graph.membersAt, hd, hd']
  exact halike.members

end Graph.Alike

end DeclaredSchema
