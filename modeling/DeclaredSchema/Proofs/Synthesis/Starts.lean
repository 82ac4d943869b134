import DeclaredSchema.Proofs.Coupling
import DeclaredSchema.Proofs.Synthesis.Members
import Mathlib.Data.List.Perm.Subperm
import Mathlib.Data.List.Nodup

/-!
# What synthesis starts

How often the type of a slot is made cannot be read off the schema, nor off what the slots have
become, since a type that is made anew may be refused. So the draft notes which types are started.

A type is started when its slot has become nothing yet, and the slot has become something before the
next one is visited. So at any time at most one slot has been started and has not become anything:
the one that is being made.

## Main definitions

* `synthesisWithin` — synthesis with any bound on nested visits
* `Draft.keys` — the slots that have become something
* `Tidy`, `Orderly` — what is known of the starts, at all times and between two steps
* `Making` — a type has been started

## Main results

* `Orderly.start` — a type is started
* `orderly_noted_one`, `orderly_noted_both` — its slot becomes something, in one mode or in both
* `length_le_of_inside` — how much there can be
-/

namespace DeclaredSchema

open Synthesis

namespace Draft

/-- The slots that have become something, each with its mode. -/
def keys (d : Draft) : List (Nat × Mode) := d.made.map Prod.fst

variable {d : Draft} {slot : Nat} {mode : Mode}

theorem at?_eq_none_iff : d.at? slot mode = none ↔ (slot, mode) ∉ d.keys := by
  rw [at?, keys]
  induction d.made with
  | nil => simp
  | cons entry rest ih =>
    obtain ⟨key, n⟩ := entry
    rw [List.lookup_cons]
    by_cases h : (slot, mode) = key
    · simp [h]
    · have hbeq : ((slot, mode) == key) = false := by simpa using h
      simp [hbeq, ih, h]

end Draft

namespace Synthesis

variable {g : Graph} {listed : List TypeRef} {options : CompileOptions} {slot : Nat} {mode : Mode}

/-! ### Runs -/

section Run

variable (visit : Nat → Mode → Synth SchemaType)

/-- The type that a root becomes, given how to visit it. -/
def rootTypeBy (name : String) (slot : Option Nat) : Synth (Option String) :=
  match slot with
  | none => return none
  | some slot => do
    record (.resolvingRoot name)
    let type ← visit slot .output
    return some type.baseName

/-- Makes the schema of the listed descriptors, given how to visit slots. -/
def runBy (g : Graph) (listed : List TypeRef) : Synth Schema := do
  let roots ← findRoots g listed ⟨none, none⟩
  if roots.query.isNone && roots.mutation.isNone then fail "<schema>" .noRoot
  let query ← rootTypeBy visit queryRoot roots.query
  let mutation ← rootTypeBy visit mutationRoot roots.mutation
  let claims := (← get).claims
  record (.synthesized claims.length)
  return ⟨query, mutation, claims.map Claim.type⟩

end Run

/-- Synthesis with another bound on nested visits. -/
def synthesisWithin (depth : Nat) (g : Graph) (listed : List TypeRef) (options : CompileOptions) :
    Except SynthesisFailure Schema × Draft :=
  (runBy (visit g options depth) g listed).run Draft.empty

/-! ### What is known of the starts -/

/-- No slot is started twice in a mode, and a slot that becomes the same in both modes is started in
one of them only. -/
structure Tidy (g : Graph) (starts : List (Nat × Mode)) : Prop where
  nodup : starts.Nodup
  inside : ∀ key ∈ starts, key.1 < g.length
  modeless : ∀ {slot s}, g.shapeAt? slot = some s → isModeless s = true →
    (slot, Mode.input) ∈ starts → (slot, Mode.output) ∉ starts

/-- Between two steps, every slot that was started has become something, except for one that is being
made, and at least `count` slots have. -/
structure Orderly (g : Graph) (making : Nat × Mode → Prop) (count : Nat) (d : Draft) : Prop where
  tidy : Tidy g d.latestStarts
  started : ∀ key ∈ d.latestStarts, making key ∨ key ∈ d.keys
  nodup : d.keys.Nodup
  inside : ∀ key ∈ d.keys, key.1 < g.length
  both : ∀ {slot s mode mode'}, g.shapeAt? slot = some s → isModeless s = true →
    (slot, mode) ∈ d.keys → (slot, mode') ∈ d.keys
  count : count ≤ d.keys.length

/-- Nothing is being made. -/
def idle : Nat × Mode → Prop := fun _ => False

/-- The slot is being made in this mode, and has not become anything yet. -/
def Making (g : Graph) (slot : Nat) (mode : Mode) (count : Nat) (d : Draft) : Prop :=
  Orderly g (· = (slot, mode)) count d ∧ (slot, mode) ∉ d.keys

variable {d : Draft} {count : Nat}

/-- Each slot of a graph can be used in two modes. -/
theorem length_le_of_inside {keys : List (Nat × Mode)} (hnodup : keys.Nodup)
    (hinside : ∀ key ∈ keys, key.1 < g.length) : keys.length ≤ 2 * g.length := by
  have hsub : keys ⊆ (List.range g.length).flatMap fun slot =>
      [(slot, Mode.input), (slot, Mode.output)] := by
    rintro ⟨slot, mode⟩ hkey
    refine List.mem_flatMap.mpr ⟨slot, List.mem_range.mpr (hinside _ hkey), ?_⟩
    cases mode <;> simp
  refine Nat.le_trans (List.subperm_of_subset hnodup hsub).length_le (Nat.le_of_eq ?_)
  simp [Nat.mul_comm]

theorem Orderly.empty : Orderly g idle 0 Draft.empty where
  tidy := ⟨List.nodup_nil, fun _ h => absurd h List.not_mem_nil,
    fun _ _ h => absurd h List.not_mem_nil⟩
  started _ h := absurd h List.not_mem_nil
  nodup := List.nodup_nil
  inside _ h := absurd h List.not_mem_nil
  both _ _ h := absurd h List.not_mem_nil
  count := Nat.le_refl 0

/-- The type of a slot that has become nothing yet is started. -/
theorem Orderly.start (h : Orderly g idle count d) (hslot : slot < g.length)
    (hnew : d.at? slot mode = none) :
    Making g slot mode count { d with latestStarts := (slot, mode) :: d.latestStarts } := by
  have hkey : (slot, mode) ∉ d.keys := Draft.at?_eq_none_iff.mp hnew
  have hstarted : ∀ key ∈ d.latestStarts, key ∈ d.keys := fun key hkey =>
    (h.started key hkey).resolve_left not_false
  refine ⟨⟨⟨?nodup, ?inside, ?modeless⟩, ?started, h.nodup, h.inside, h.both, h.count⟩, hkey⟩
  case nodup => exact List.nodup_cons.mpr ⟨fun hmem => hkey (hstarted _ hmem), h.tidy.nodup⟩
  case inside =>
    intro key hmem
    rcases List.mem_cons.mp hmem with rfl | hmem
    · exact hslot
    · exact h.tidy.inside key hmem
  case modeless =>
    intro slot' s hs hmodeless hinput houtput
    rw [List.mem_cons] at hinput houtput
    -- in the other mode the slot would have become something, and in this mode with it
    rcases hinput with heq | hinput <;> rcases houtput with heq' | houtput
    · cases heq.trans heq'.symm
    · obtain rfl : slot' = slot := congrArg Prod.fst heq
      exact hkey (h.both hs hmodeless (hstarted _ houtput))
    · obtain rfl : slot' = slot := congrArg Prod.fst heq'
      exact hkey (h.both hs hmodeless (hstarted _ hinput))
    · exact h.tidy.modeless hs hmodeless hinput houtput
  case started => exact fun key hmem => (List.mem_cons.mp hmem).imp_right (hstarted key)

/-- The slot that is being made becomes something, in both modes if it is the same in both. -/
theorem orderly_noted {s : Shape} {modes : List Mode} {n : String} (h : Making g slot mode count d)
    (hs : g.shapeAt? slot = some s) (hmode : mode ∈ modes) (hnodup : modes.Nodup)
    (hboth : isModeless s = true → ∀ mode', mode' ∈ modes)
    (honly : isModeless s = false → modes = [mode]) :
    Orderly g idle (count + 1) (noted d slot modes n) := by
  obtain ⟨h, hnew⟩ := h
  have hkeys : (noted d slot modes n).keys = d.keys ++ modes.map fun mode => (slot, mode) := by
    simp [Draft.keys, noted, Function.comp_def]
  have hfresh : ∀ mode' ∈ modes, (slot, mode') ∉ d.keys := by
    intro mode' hmode' hmem
    cases hmodeless : isModeless s with
    | true => exact hnew (h.both hs hmodeless hmem)
    | false =>
      rw [honly hmodeless, List.mem_singleton] at hmode'
      exact hnew (hmode' ▸ hmem)
  have hlt : slot < g.length := by
    obtain ⟨e, he, -⟩ := Option.map_eq_some_iff.mp hs
    exact (List.getElem?_eq_some_iff.mp he).1
  refine ⟨h.tidy, fun key hkey => .inr ?_, ?_, fun key hkey => ?_, ?_, ?_⟩
  · rw [hkeys, List.mem_append, List.mem_map]
    exact (h.started key hkey).symm.imp_right fun heq => ⟨mode, hmode, heq.symm⟩
  · rw [hkeys]
    refine h.nodup.append (hnodup.map fun _ _ heq => congrArg Prod.snd heq) ?_
    intro key hkey hmem
    obtain ⟨mode', hmode', rfl⟩ := List.mem_map.mp hmem
    exact hfresh mode' hmode' hkey
  · rw [hkeys, List.mem_append, List.mem_map] at hkey
    rcases hkey with hkey | ⟨mode', -, rfl⟩
    · exact h.inside key hkey
    · exact hlt
  · intro slot' s' mode₁ mode₂ hs' hmodeless hmem
    rw [hkeys, List.mem_append, List.mem_map] at hmem ⊢
    rcases hmem with hmem | ⟨mode', -, heq⟩
    · exact .inl (h.both hs' hmodeless hmem)
    · obtain rfl : slot = slot' := congrArg Prod.fst heq
      obtain rfl : s = s' := Option.some.inj (hs.symm.trans hs')
      exact .inr ⟨mode₂, hboth hmodeless mode₂, rfl⟩
  · rw [hkeys, List.length_append, List.length_map]
    exact Nat.add_le_add h.count (List.length_pos_of_mem hmode)

/-- The slot becomes something in the mode that it is made in. -/
theorem orderly_noted_one {s : Shape} {n : String} (h : Making g slot mode count d)
    (hs : g.shapeAt? slot = some s) (hmodeless : isModeless s = false) :
    Orderly g idle (count + 1) (noted d slot [mode] n) := by
  refine orderly_noted h hs (List.mem_singleton_self mode) (List.nodup_singleton mode) ?_
    fun _ => rfl
  intro hboth
  cases hmodeless.symm.trans hboth

/-- The slot becomes the same in both modes. -/
theorem orderly_noted_both {s : Shape} {n : String} (h : Making g slot mode count d)
    (hs : g.shapeAt? slot = some s) (hmodeless : isModeless s = true) :
    Orderly g idle (count + 1) (noted d slot [.input, .output] n) := by
  have hall : ∀ mode' : Mode, mode' ∈ [Mode.input, Mode.output] := by
    intro mode'
    cases mode' <;> decide
  refine orderly_noted h hs (hall mode) (by decide) (fun _ => hall) fun hone => ?_
  cases hmodeless.symm.trans hone

end Synthesis

end DeclaredSchema
