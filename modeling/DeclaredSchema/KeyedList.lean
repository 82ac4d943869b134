/-!
# Lists with keys

Tables whose order matters are lists of entries that know their keys. When a key occurs again, the
later entry takes the place of the earlier one.

## Main definitions

* `insertByKey` — puts a later entry in the place of an earlier one of its key
-/

namespace DeclaredSchema

/-- Replaces the entry of the same key, or appends a new one. -/
def insertByKey {α : Type} (key : α → String) (x : α) : List α → List α
  | [] => [x]
  | y :: rest => if key y = key x then x :: rest else y :: insertByKey key x rest

@[simp] theorem insertByKey_nil {α : Type} (key : α → String) (x : α) :
    insertByKey key x [] = [x] := rfl

end DeclaredSchema
