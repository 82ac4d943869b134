import DeclaredSchema.KeyedList
import Mathlib.Data.List.Basic
import Mathlib.Data.List.Induction

/-!
# The last entry of each key

Putting the entries of a list one after the other into a table with `insertByKey` leaves one entry
for each key: the last one of the list, at the place of the first. `lastOfEach` says so without a
table, and it is what schemas and descriptors are compared with.

## Main definitions

* `lastOfEach` — the keys in the order of their first entries, each with its last entry

## Main results

* `foldl_insertByKey` — inserting one by one yields `lastOfEach`
* `lastOfEach_map` — a change of the entries that keeps their keys can come before or after
-/

namespace DeclaredSchema

variable {α β : Type} {key : α → String}

/-- The last entry of a key. -/
def lastFor? (key : α → String) (xs : List α) (k : String) : Option α :=
  xs.reverse.find? fun x => key x = k

/-- For each key in the order of the first entries, the last entry. -/
def lastOfEach (key : α → String) (xs : List α) : List α :=
  (xs.map key).eraseDups.filterMap (lastFor? key xs)

@[simp] theorem lastOfEach_nil : lastOfEach key ([] : List α) = [] := rfl

theorem key_of_lastFor? {xs : List α} {k : String} {x : α} (h : lastFor? key xs k = some x) :
    key x = k := by
  simpa using List.find?_some h

theorem mem_of_lastFor? {xs : List α} {k : String} {x : α} (h : lastFor? key xs k = some x) :
    x ∈ xs :=
  List.mem_reverse.mp (List.mem_of_find?_eq_some h)

theorem lastFor?_concat (xs : List α) (x : α) (k : String) :
    lastFor? key (xs ++ [x]) k = if key x = k then some x else lastFor? key xs k := by
  by_cases h : key x = k <;> simp [lastFor?, h]

theorem exists_lastFor?_of_mem {xs : List α} {k : String} (h : k ∈ xs.map key) :
    ∃ x, lastFor? key xs k = some x := by
  obtain ⟨y, hy, rfl⟩ := List.mem_map.mp h
  rw [← Option.isSome_iff_exists, lastFor?, List.find?_isSome]
  exact ⟨y, List.mem_reverse.mpr hy, by simp⟩

/-- The keys keep the order of their first entries. -/
theorem map_lastOfEach (xs : List α) : (lastOfEach key xs).map key = (xs.map key).eraseDups := by
  have hlook : ∀ k ∈ (xs.map key).eraseDups, (lastFor? key xs k).map key = some k := by
    intro k hk
    obtain ⟨x, hx⟩ := exists_lastFor?_of_mem (List.mem_eraseDups.mp hk)
    rw [hx, Option.map_some, key_of_lastFor? hx]
  rw [lastOfEach, List.map_filterMap, List.filterMap_congr hlook, List.filterMap_some]

theorem mem_of_mem_lastOfEach {xs : List α} {x : α} (h : x ∈ lastOfEach key xs) : x ∈ xs := by
  obtain ⟨k, -, hk⟩ := List.mem_filterMap.mp h
  exact mem_of_lastFor? hk

/-- The last entry of a key has no other of this key behind it. -/
theorem exists_append_of_lastFor? {xs : List α} {k : String} {x : α}
    (h : lastFor? key xs k = some x) :
    ∃ before after, xs = before ++ x :: after ∧ ∀ y ∈ after, key y ≠ k := by
  rw [lastFor?, List.find?_eq_some_iff_append] at h
  obtain ⟨-, after, before, hreverse, hafter⟩ := h
  refine ⟨before.reverse, after.reverse, ?_, fun y hy => ?_⟩
  · rw [← List.reverse_reverse xs, hreverse]
    simp
  · simpa using hafter y (List.mem_reverse.mp hy)

theorem lastFor?_of_mem_lastOfEach {xs : List α} {x : α} (h : x ∈ lastOfEach key xs) :
    lastFor? key xs (key x) = some x := by
  obtain ⟨k, -, hk⟩ := List.mem_filterMap.mp h
  rwa [key_of_lastFor? hk]

/-! ### Inserting one by one -/

/-- A table given by its keys and a look-up that answers every key with an entry of that key. -/
theorem insertByKey_filterMap {look : String → Option α} {ks : List String} (hnodup : ks.Nodup)
    (hlook : ∀ k ∈ ks, ∃ y, look k = some y ∧ key y = k) (x : α) :
    insertByKey key x (ks.filterMap look) =
      (if key x ∈ ks then ks else ks ++ [key x]).filterMap
        fun k => if key x = k then some x else look k := by
  induction ks with
  | nil => simp
  | cons k rest ih =>
    obtain ⟨hk, hrest⟩ := List.nodup_cons.mp hnodup
    obtain ⟨y, hy, rfl⟩ := hlook k (List.mem_cons_self ..)
    have ih := ih hrest fun l hl => hlook l (List.mem_cons_of_mem _ hl)
    rw [List.filterMap_cons_some hy]
    by_cases hx : key x = key y
    · have hkeep : rest.filterMap (fun l => if key x = l then some x else look l) =
          rest.filterMap look := by
        refine List.filterMap_congr fun l hl => if_neg ?_
        rintro rfl
        exact hk (hx ▸ hl)
      simp [insertByKey, hx, ← hkeep]
    · have hne : ¬ key y = key x := fun h => hx h.symm
      rw [insertByKey, if_neg hne, ih]
      by_cases hmem : key x ∈ rest
      · rw [if_pos hmem, if_pos (List.mem_cons_of_mem _ hmem), List.filterMap_cons_some]
        rw [if_neg hx, hy]
      · have hmem' : key x ∉ key y :: rest := by simp [hx, hmem]
        rw [if_neg hmem, if_neg hmem', List.cons_append, List.filterMap_cons_some]
        rw [if_neg hx, hy]

theorem eraseDups_concat (ks : List String) (k : String) :
    (ks ++ [k]).eraseDups = if k ∈ ks then ks.eraseDups else ks.eraseDups ++ [k] := by
  rw [List.eraseDups_append]
  by_cases h : k ∈ ks <;> simp [List.removeAll, h, List.eraseDups_cons]

theorem nodup_eraseDups (ks : List String) : ks.eraseDups.Nodup := by
  induction ks using List.reverseRecOn with
  | nil => exact List.nodup_nil
  | append_singleton ks k ih =>
    rw [eraseDups_concat]
    split
    · exact ih
    · next hk =>
      rw [List.nodup_append]
      refine ⟨ih, List.nodup_cons.mpr ⟨List.not_mem_nil, List.nodup_nil⟩, fun l hl m hm => ?_⟩
      rintro rfl
      exact hk (List.mem_eraseDups.mp (List.mem_singleton.mp hm ▸ hl))

theorem lastOfEach_concat (xs : List α) (x : α) :
    lastOfEach key (xs ++ [x]) = insertByKey key x (lastOfEach key xs) := by
  have hlook : ∀ k ∈ (xs.map key).eraseDups, ∃ y, lastFor? key xs k = some y ∧ key y = k := by
    intro k hk
    obtain ⟨y, hy⟩ := exists_lastFor?_of_mem (List.mem_eraseDups.mp hk)
    exact ⟨y, hy, key_of_lastFor? hy⟩
  rw [lastOfEach, lastOfEach, insertByKey_filterMap (nodup_eraseDups _) hlook,
    List.map_append, List.map_singleton, eraseDups_concat]
  simp only [List.mem_eraseDups]
  exact List.filterMap_congr fun k _ => lastFor?_concat xs x k

/-- **Later entries take the place of earlier ones.** Inserting the entries of a list one by one
leaves the last entry of each key at the place of the first. -/
theorem foldl_insertByKey (xs : List α) :
    xs.foldl (fun table x => insertByKey key x table) [] = lastOfEach key xs := by
  induction xs using List.reverseRecOn with
  | nil => rfl
  | append_singleton xs x ih => rw [List.foldl_concat, ih, lastOfEach_concat]

/-- Texts that are their own keys are left once each. -/
theorem lastOfEach_id (ks : List String) : lastOfEach id ks = ks.eraseDups := by
  have hlook : ∀ k ∈ ks.eraseDups, lastFor? id ks k = some k := by
    intro k hk
    have hmem : k ∈ ks.map id := by
      rw [List.map_id]
      exact List.mem_eraseDups.mp hk
    obtain ⟨l, hl⟩ := exists_lastFor?_of_mem hmem
    have hkey : l = k := key_of_lastFor? hl
    rw [hl, hkey]
  rw [lastOfEach, List.map_id, List.filterMap_congr hlook, List.filterMap_some]

/-! ### Changing the entries -/

variable {key' : β → String} {f : α → β}

theorem insertByKey_map (hkey : ∀ x, key' (f x) = key x) (x : α) (xs : List α) :
    insertByKey key' (f x) (xs.map f) = (insertByKey key x xs).map f := by
  induction xs with
  | nil => rfl
  | cons y rest ih =>
    by_cases h : key y = key x
    · simp [insertByKey, hkey, h]
    · simp [insertByKey, hkey, h, ih]

theorem lastOfEach_map (hkey : ∀ x, key' (f x) = key x) (xs : List α) :
    lastOfEach key' (xs.map f) = (lastOfEach key xs).map f := by
  induction xs using List.reverseRecOn with
  | nil => rfl
  | append_singleton xs x ih =>
    rw [List.map_append, List.map_singleton, lastOfEach_concat, ih, lastOfEach_concat,
      insertByKey_map hkey]

end DeclaredSchema
