import DeclaredSchema.Proofs.Extraction.Acceptance
import DeclaredSchema.Proofs.Extraction.Ending
import DeclaredSchema.Proofs.Extraction.NullableAlias

/-!
# Unions of texts as enumerations

An alias whose alternatives are texts is a union, or an enumeration if these are asked for. Nothing
else depends on what is asked for: a union of texts admits the same defaults as the enumeration of
them, neither is a record, and both take their slot at the same moment, since texts take none. So the
two extractions of a file go in step, and their tables differ in these slots only. The only files
that have one table and not the other are those with an alias of texts and other literals together,
which is refused when enumerations are asked for.

The one that builds the union resolves its texts, and the other one does not, so it goes one step
deeper at most.

## Main definitions

* `IsTextUnion`, `MixesLiterals` — aliases of texts, and of texts and other literals together
* `Corresponds` — tables that differ in unions of texts only
* `IsPair`, `Paired` — the same while slots are underway

## Main results

* `newUnion_of_literals` — a union of literals is complete as soon as its slot is taken
* `enums_or_unions` — asking for enumerations changes unions of texts only
-/

namespace DeclaredSchema

namespace Extraction

/-- The alternatives of the alias besides null and undefined are texts. -/
structure IsTextUnion (scope : Scope) (d : Alias) : Prop where
  mem : .typeAlias d ∈ scope
  texts : ∀ n ∈ alternatives scope d.node, n.expr.text?.isSome = true

/-- All types are literals, some of them texts and some not. -/
def MixesLiterals (ns : List Node) : Prop :=
  (∀ n ∈ ns, n.expr.literal?.isSome = true) ∧ (∃ n ∈ ns, n.expr.text?.isSome = true) ∧
    ∃ n ∈ ns, n.expr.text?.isSome = false

/-- What the literals among the given types stand for. -/
def literalTypes (ns : List Node) : List TypeRef :=
  (ns.filterMap fun n => n.expr.literal?).map (literalType none)

/-- The table `g` has an enumeration where `g'` has a union of texts, and otherwise they are the
same. -/
structure Corresponds (scope : Scope) (g g' : Graph) : Prop where
  length : g.length = g'.length
  /-- A descriptor is the same in both tables, unless it is that of a union of texts. -/
  entries : ∀ {i : Nat} {d d' : Descriptor}, g[i]? = some d → g'[i]? = some d' →
    d = d' ∧ (∀ a, IsTextUnion scope a → d.shape.name? ≠ some a.name) ∨
    ∃ a, IsTextUnion scope a ∧
      d = ⟨i + 1, .enumeration a.name a.doc (literalTypes (alternatives scope a.node))⟩ ∧
      d' = ⟨i + 1, .union (some a.name) a.doc (literalTypes (alternatives scope a.node))⟩
  /-- The alias has a descriptor unless it only renames its one text. -/
  present : ∀ {a}, IsTextUnion scope a →
    ((∃ d ∈ g, d.shape.name? = some a.name) ↔ namesShape scope a = true)

/-- The same descriptor, or an enumeration and the union of the same texts. -/
inductive IsPair : Descriptor → Descriptor → Prop
  | same {d : Descriptor} : IsPair d d
  | texts {id : Int} {name : String} {doc : Option String} {types : List TypeRef}
      (h : ∀ t ∈ types, t.text?.isSome = true) :
      IsPair ⟨id, .enumeration name doc types⟩ ⟨id, .union (some name) doc types⟩

/-- The tables have the same keys and pairs of descriptors, which are the same in the slots of
`U`. -/
structure Paired (U : Nat → Prop) (r r' : Registry) : Prop where
  keys : r.keys = r'.keys
  length : r.graph.length = r'.graph.length
  pairs : ∀ {i : Nat} {d d' : Descriptor}, r.graph[i]? = some d → r'.graph[i]? = some d' → IsPair d d'
  underway : ∀ {i : Nat}, U i → r.graph[i]? = r'.graph[i]?
  taken : ∀ {i}, U i → i < r.graph.length

variable {scope : Scope} {X : ExtractionError → Prop} {U : Nat → Prop} {r r' : Registry}
  {key : NodeKey} {slot : Nat} {rec rec' : Resolver} {depth : Nat} {d : Alias} {ns : List Node}
  {g g' : Graph} {file : SourceUnit}

/-! ### Pairs -/

namespace Paired

/-- A slot holds a pair, or there is no such slot. -/
theorem rel (h : Paired U r r') (i : Nat) : Option.Rel IsPair r.graph[i]? r'.graph[i]? := by
  cases hd : r.graph[i]? with
  | none =>
    rw [List.getElem?_eq_none_iff, h.length, ← List.getElem?_eq_none_iff] at hd
    rw [hd]
    exact .none
  | some d =>
    have hlt : i < r'.graph.length := h.length ▸ (List.getElem?_eq_some_iff.mp hd).1
    rw [List.getElem?_eq_getElem hlt]
    exact .some (h.pairs hd (List.getElem?_eq_getElem hlt))

theorem empty : Paired (fun _ => False) Registry.empty Registry.empty where
  keys := rfl
  length := rfl
  pairs hd := by cases hd
  underway hi := hi.elim
  taken hi := hi.elim

theorem isRecord_eq (h : Paired U r r') (t : TypeRef) :
    r.graph.isRecord t = r'.graph.isRecord t := by
  cases t with
  | node slot =>
    rw [Graph.isRecord, Graph.isRecord, Graph.shape?, Graph.shape?]
    have hrel := h.rel slot
    generalize r.graph[slot]? = x, r'.graph[slot]? = x' at hrel
    cases hrel with
    | none => rfl
    | some hpair => cases hpair <;> rfl
  | primitive | array | untypedArray | date | foreign => rfl

/-- **Defaults** are admitted by a union of texts as they are by the enumeration of them. -/
theorem admits_eq (h : Paired U r r') (t : TypeRef) (v : Literal) :
    r.graph.admits t v = r'.graph.admits t v := by
  cases t with
  | node slot =>
    rw [Graph.admits, Graph.admits]
    have hrel := h.rel slot
    generalize r.graph[slot]? = x, r'.graph[slot]? = x' at hrel
    cases hrel with
    | none => rfl
    | some hpair =>
      cases hpair with
      | same => rfl
      | @texts id name doc types htexts =>
        have hall : (types.map TypeRef.text?).all Option.isSome = true := by
          rw [List.all_map, List.all_eq_true]
          exact htexts
        simp only [Option.map_some, hall, Bool.true_and]
  | primitive | array | untypedArray | date | foreign => rfl

/-- Both take a slot, for a pair. -/
theorem add_pair (h : Paired U r r') {shape shape' : Shape}
    (hpair : IsPair ⟨r.graph.length + 1, shape⟩ ⟨r.graph.length + 1, shape'⟩) :
    Paired U (r.add key shape) (r'.add key shape') where
  keys := by rw [Registry.keys_add, Registry.keys_add, h.keys]
  length := by rw [Registry.length_graph_add, Registry.length_graph_add, h.length]
  pairs {i d d'} hd hd' := by
    rcases Nat.lt_trichotomy i r.graph.length with hlt | rfl | hgt
    · rw [Registry.add, List.getElem?_append_left hlt] at hd
      rw [Registry.add, List.getElem?_append_left (h.length ▸ hlt)] at hd'
      exact h.pairs hd hd'
    · rw [getElem?_graph_add] at hd
      rw [h.length, getElem?_graph_add, ← h.length] at hd'
      cases hd
      cases hd'
      exact hpair
    · have hlt := (List.getElem?_eq_some_iff.mp hd).1
      rw [Registry.length_graph_add] at hlt
      omega
  underway {i} hi := by
    have hlt := h.taken hi
    rw [Registry.add, Registry.add, List.getElem?_append_left hlt,
      List.getElem?_append_left (h.length ▸ hlt), h.underway hi]
  taken hi := by
    rw [Registry.length_graph_add]
    exact Nat.lt_succ_of_lt (h.taken hi)

/-- Both take a slot that is underway. -/
theorem add (h : Paired U r r') (key : NodeKey) (shape : Shape) :
    Paired (also U r.graph.length) (r.add key shape) (r'.add key shape) := by
  have hadd : Paired U (r.add key shape) (r'.add key shape) := h.add_pair .same
  refine ⟨hadd.keys, hadd.length, hadd.pairs, fun hi => ?_, fun hi => ?_⟩
  · rcases hi with hi | rfl
    · exact hadd.underway hi
    · rw [getElem?_graph_add, h.length, getElem?_graph_add]
  · rcases hi with hi | rfl
    · exact hadd.taken hi
    · rw [Registry.length_graph_add]
      exact Nat.lt_succ_self _

/-- Both change a slot that is underway. -/
theorem update (h : Paired U r r') (hslot : U slot) (f : Shape → Shape) :
    Paired U (r.update slot f) (r'.update slot f) where
  keys := h.keys
  length := by rw [Registry.length_graph_update, Registry.length_graph_update, h.length]
  pairs {i d d'} hd hd' := by
    rw [getElem?_graph_update] at hd hd'
    split at hd
    · next heq =>
      subst heq
      rw [if_pos rfl, ← h.underway hslot, hd] at hd'
      obtain rfl := Option.some.inj hd'
      exact .same
    · next hne =>
      rw [if_neg hne] at hd'
      exact h.pairs hd hd'
  underway hi := by rw [getElem?_graph_update, getElem?_graph_update, h.underway hi]
  taken hi := by
    rw [Registry.length_graph_update]
    exact h.taken hi

end Paired

/-- Extraction cannot tell paired tables apart. -/
theorem isLockstep_paired (hX : ∀ e, X e) : IsLockstep X Paired where
  keys h := h.keys
  length h := h.length
  isRecord h := h.isRecord_eq
  admits h := h.admits_eq
  label _ := .inr hX
  add h := h.add
  update h := h.update
  finish h := ⟨h.keys, h.length, h.pairs, fun hi => h.underway (.inl hi), fun hi => h.taken (.inl hi)⟩

/-! ### Unions of literals -/

/-- A slot that is changed as soon as it is taken is taken for what it is changed to. -/
theorem update_add (r : Registry) (key : NodeKey) (shape : Shape) (f : Shape → Shape) :
    (r.add key shape).update r.graph.length f = r.add key (f shape) := by
  have hgraph : ((r.add key shape).update r.graph.length f).graph = (r.add key (f shape)).graph := by
    refine List.ext_getElem? fun i => ?_
    rw [getElem?_graph_update]
    split
    · next heq => rw [← heq, getElem?_graph_add, getElem?_graph_add, Option.map_some]
    · next hne =>
      rw [Registry.add, Registry.add, List.getElem?_append, List.getElem?_append]
      split
      · rfl
      · rw [List.getElem?_eq_none (by simp; omega), List.getElem?_eq_none (by simp; omega)]
  exact congrArg (Registry.mk (r.keys ++ [key])) hgraph

/-- A literal has no wrappings. -/
theorem strips_literal (s : Site) (v : Literal) :
    Strips scope ⟨s, .literal v⟩ ⟨⟨s, .literal v⟩, false, none⟩ := by
  rw [Strips, strip]

/-- A nested resolution of literals. -/
def ResolvesLiterals (rec : Resolver) : Prop :=
  ∀ s v raw owner r, Yields (rec ⟨s, .literal v⟩ raw owner) r (literalType raw v) r

theorem resolvesLiterals_succ (ctx : ExtractionContext) (depth : Nat) :
    ResolvesLiterals (resolve ctx (depth + 1)) :=
  fun _ _ _ _ _ => yields_pure.mpr ⟨rfl, rfl⟩

/-- The literals of a union are put into it in front of each other, and then turned round. -/
theorem fillUnion_of_literals (hrec : ResolvesLiterals rec) {ctx : ExtractionContext}
    {name doc : Option String} {owner : String} (hns : ∀ n ∈ ns, n.expr.literal?.isSome = true)
    (acc : List TypeRef) :
    Yields (fillUnion ctx rec r.graph.length owner ns) (r.add key (.union name doc acc)) ⟨⟩
      (r.add key (.union name doc (acc.reverse ++ literalTypes ns))) := by
  induction ns generalizing acc with
  | nil =>
    refine yields_change.mpr ?_
    rw [update_add, literalTypes, List.filterMap_nil, List.map_nil, List.append_nil]
    rfl
  | cons n rest ih =>
    obtain ⟨s, e⟩ := n
    have he := hns _ (List.mem_cons_self ..)
    cases e with
    | literal v =>
      have hn : Yields (alternative ctx rec owner ⟨s, .literal v⟩) (r.add key (.union name doc acc))
          (literalType none v) (r.add key (.union name doc acc)) :=
        yields_bind.mpr ⟨_, _, yields_of_strips (strips_literal s v), hrec s v none owner _⟩
      have hrest := ih (fun m hm => hns m (List.mem_cons_of_mem _ hm)) (literalType none v :: acc)
      rw [List.reverse_cons, List.append_assoc] at hrest
      refine yields_bind.mpr ⟨_, _, hn, yields_bind.mpr ⟨⟨⟩, _, yields_change.mpr rfl, ?_⟩⟩
      rw [update_add]
      exact hrest
    | keyword | reference | array | object | union | function => cases he

/-- **A union of literals** is complete as soon as its slot is taken. -/
theorem newUnion_of_literals (hrec : ResolvesLiterals rec) {ctx : ExtractionContext}
    {name doc : Option String} {owner : String} (hns : ∀ n ∈ ns, n.expr.literal?.isSome = true)
    (r : Registry) : Yields (newUnion ctx rec key name doc owner ns) r r.graph.length
      (r.add key (.union name doc (literalTypes ns))) :=
  yields_bind.mpr ⟨_, _, yields_register.mpr ⟨rfl, rfl⟩,
    yields_bind.mpr ⟨_, _, fillUnion_of_literals hrec hns [], yields_pure.mpr ⟨rfl, rfl⟩⟩⟩

/-! ### Which literals there are -/

theorem length_filterMap_literal? (ns : List Node) :
    ((ns.filterMap fun n => n.expr.literal?).length == ns.length) =
      ns.all fun n => n.expr.literal?.isSome := by
  induction ns with
  | nil => rfl
  | cons n rest ih =>
    have hle := List.length_filterMap_le (fun n : Node => n.expr.literal?) rest
    cases hliteral : n.expr.literal? with
    | none =>
      simp only [List.filterMap_cons, hliteral, List.length_cons, List.all_cons,
        Option.isSome_none, Bool.false_and, beq_eq_false_iff_ne]
      omega
    | some v =>
      simp only [List.filterMap_cons, hliteral, List.length_cons, List.all_cons,
        Option.isSome_some, Bool.true_and, ← ih]
      exact Bool.eq_iff_iff.mpr (by simp)

theorem any_text_filterMap_literal? (ns : List Node) :
    ((ns.filterMap fun n => n.expr.literal?).any fun v => v.text?.isSome) =
      ns.any fun n => n.expr.text?.isSome := by
  rw [List.any_filterMap]
  congr 1
  funext n
  rw [TypeExpr.text?, Option.isSome_bind]
  cases n.expr.literal? <;> rfl

/-- Alternatives are mixed when enumerations are asked for, if they are literals of both kinds. -/
theorem isMixed_iff : isMixed ⟨scope, true⟩ ns = true ↔ MixesLiterals ns := by
  have hall := all_text_eq ns
  rw [length_filterMap_literal?] at hall
  rw [isMixed, MixesLiterals, length_filterMap_literal?, any_text_filterMap_literal?]
  simp only [Bool.true_and, Bool.and_eq_true, List.all_eq_true, List.any_eq_true,
    Bool.not_eq_true', and_assoc]
  refine and_congr_right fun hliterals => and_congr_right fun _ => ?_
  rw [List.all_eq_true.mpr hliterals, Bool.true_and] at hall
  rw [← hall, List.all_eq_false]
  simp only [Bool.not_eq_true]

/-- A named union is an enumeration, is refused, or is a union. -/
theorem namedUnion_eq (ctx : ExtractionContext) (rec : Resolver) (d : Alias) (ns : List Node) :
    namedUnion ctx rec d ns =
      if isTextEnumeration ctx ns then
        register (.declared d.name) (.enumeration d.name d.doc (literalTypes ns))
      else if isMixed ctx ns then failAt d.position d.name (.mixedLiterals d.name)
      else newUnion ctx rec (.declared d.name) (some d.name) d.doc d.name ns := by
  rw [isTextEnumeration, all_text_eq, isMixed, namedUnion, literalTypes]
  generalize hvalues : (ns.filterMap fun n => n.expr.literal?) = values
  cases ctx.unionsAsEnums
  · rfl
  · cases values.length == ns.length
    · rfl
    · cases values.all fun v => v.text?.isSome <;> cases values.any fun v => v.text?.isSome <;> rfl

/-! ### Named unions -/

theorem isSome_literal?_of_text? {e : TypeExpr} (h : e.text?.isSome = true) :
    e.literal?.isSome = true := by
  cases e with
  | literal => rfl
  | keyword | reference | array | object | union | function => cases h

/-- The types that texts stand for are texts. -/
theorem isSome_text?_of_mem_literalTypes (hns : ∀ n ∈ ns, n.expr.text?.isSome = true)
    {t : TypeRef} (ht : t ∈ literalTypes ns) : t.text?.isSome = true := by
  obtain ⟨v, hv, rfl⟩ := List.mem_map.mp ht
  obtain ⟨n, hn, hliteral⟩ := List.mem_filterMap.mp hv
  have htext := hns n hn
  rwa [TypeExpr.text?, hliteral, Option.bind_some] at htext

theorem isTextEnumeration_iff :
    isTextEnumeration ⟨scope, true⟩ ns = true ↔ ∀ n ∈ ns, n.expr.text?.isSome = true := by
  rw [isTextEnumeration, Bool.true_and, List.all_eq_true]

theorem namedUnion_of_unions (rec : Resolver) (d : Alias) (ns : List Node) :
    namedUnion ⟨scope, false⟩ rec d ns =
      newUnion ⟨scope, false⟩ rec (.declared d.name) (some d.name) d.doc d.name ns := rfl

variable (hX : ∀ e, X e)

include hX

/-- **A named union** that becomes an enumeration is followed by the union of the same texts. -/
theorem namedUnions_inStep (hrec : ResolversInStep X Paired rec rec')
    (hliterals : ResolvesLiterals rec') :
    NamedUnionsInStep X Paired ⟨scope, true⟩ ⟨scope, false⟩ rec rec' := by
  intro d _ _ U
  rw [namedUnion_of_unions, namedUnion_eq]
  split
  · next htexts =>
    have htexts := isTextEnumeration_iff.mp htexts
    refine Follows.agrees (fun r r' slot t hr hyields => ?_) hX
    obtain ⟨rfl, rfl⟩ := yields_register.mp hyields
    have hunion : Yields (newUnion ⟨scope, false⟩ rec' (.declared d.name) (some d.name) d.doc d.name
        (alternatives scope d.node)) r' r'.graph.length (r'.add (.declared d.name)
          (.union (some d.name) d.doc (literalTypes (alternatives scope d.node)))) :=
      newUnion_of_literals hliterals (fun n hn => isSome_literal?_of_text? (htexts n hn)) r'
    rw [← hr.length] at hunion
    exact ⟨_, hunion, hr.add_pair (.texts fun t => isSome_text?_of_mem_literalTypes htexts)⟩
  · split
    · exact agrees_of_excused (hX _)
    · exact newUnion_inStep (isLockstep_paired hX) hrec U

/-- **A union of texts** is followed by the enumeration of them, and no other union is refused. -/
theorem namedUnions_inStep_flip
    (hrec : ResolversInStep X (fun U r r' => Paired U r' r) (resolve ⟨scope, false⟩ depth) rec')
    (hunmixed : ∀ d, .typeAlias d ∈ scope → namesShape scope d = true →
      ¬MixesLiterals (alternatives scope d.node)) :
    NamedUnionsInStep X (fun U r r' => Paired U r' r) ⟨scope, false⟩ ⟨scope, true⟩
      (resolve ⟨scope, false⟩ depth) rec' := by
  intro d hd hshape U
  rw [namedUnion_of_unions, namedUnion_eq]
  split
  · next htexts =>
    have htexts := isTextEnumeration_iff.mp htexts
    refine Follows.agrees (fun r r' slot t hr hyields => ?_) hX
    -- with more depth the union has the same slot, and then its texts are resolved
    have hdeeper : InStep (· = .endless) (fun _ r r' => r = r')
        (newUnion ⟨scope, false⟩ (resolve ⟨scope, false⟩ depth) (.declared d.name) (some d.name) d.doc
          d.name (alternatives scope d.node))
        (newUnion ⟨scope, false⟩ (resolve ⟨scope, false⟩ (depth + 1)) (.declared d.name)
          (some d.name) d.doc d.name (alternatives scope d.node)) :=
      newUnion_inStep isLockstep_eq (resolve_inStep_succ ⟨scope, false⟩ depth)
    obtain ⟨_, hdeeper, rfl⟩ := (hdeeper fun _ => False).follows r r slot t rfl hyields
    obtain ⟨rfl, rfl⟩ := hdeeper.unique (newUnion_of_literals
      (resolvesLiterals_succ ⟨scope, false⟩ depth)
      (fun n hn => isSome_literal?_of_text? (htexts n hn)) r)
    refine ⟨_, yields_register.mpr ⟨hr.length.symm, rfl⟩, ?_⟩
    exact hr.add_pair (.texts fun t => isSome_text?_of_mem_literalTypes htexts)
  · split
    · next hmixed => exact absurd (isMixed_iff.mp hmixed) (hunmixed d hd hshape)
    · exact newUnion_inStep (isLockstep_paired hX).flip hrec U

/-- Unions need one step more, since their texts are resolved. -/
theorem resolve_inStep_unions (depth : Nat) :
    ResolversInStep X Paired (resolve ⟨scope, true⟩ depth) (resolve ⟨scope, false⟩ (depth + 1)) := by
  induction depth with
  | zero => exact fun _ _ _ _ => agrees_of_excused (hX _)
  | succ depth ih =>
    exact resolveStep_inStep (isLockstep_paired hX) ih
      (namedUnions_inStep hX ih (resolvesLiterals_succ _ depth))

theorem resolve_inStep_enums (hunmixed : ∀ d, .typeAlias d ∈ scope → namesShape scope d = true →
      ¬MixesLiterals (alternatives scope d.node)) (depth : Nat) :
    ResolversInStep X (fun U r r' => Paired U r' r) (resolve ⟨scope, false⟩ depth)
      (resolve ⟨scope, true⟩ depth) := by
  induction depth with
  | zero => exact fun _ _ _ _ => agrees_of_excused (hX _)
  | succ depth ih =>
    exact resolveStep_inStep (isLockstep_paired hX).flip ih (namedUnions_inStep_flip hX ih hunmixed)

omit hX

/-! ### Files -/

/-- **With enumerations**, a run is followed by one with unions that may go one step deeper. -/
theorem runWithin_unions {u : Unit} (h : Yields (runWithin depth true file) Registry.empty u r) :
    ∃ r', Yields (runWithin (depth + 1) false file) Registry.empty u r' ∧
      Paired (fun _ => False) r r' := by
  have hagrees : Agrees (fun _ => True) (Paired fun _ => False) (Paired fun _ => False)
      (runWithin depth true file) (runWithin (depth + 1) false file) := by
    unfold runWithin
    split
    · exact agrees_throw _
    · have hrec : ResolversInStep (fun _ => True) Paired (resolve ⟨file.declarations, true⟩ depth)
          (resolve ⟨file.declarations, false⟩ (depth + 1)) :=
        resolve_inStep_unions (fun _ => trivial) depth
      exact Agrees.forM fun d hd => declare_inStep (isLockstep_paired fun _ => trivial) hrec
        (namedUnions_inStep (fun _ => trivial) hrec (resolvesLiterals_succ _ depth)) hd _
  exact hagrees.follows _ _ _ _ .empty h

/-- **With unions**, a run is followed by one with enumerations, unless literals are mixed. -/
theorem runWithin_enums {u : Unit} (hunmixed : ∀ d, .typeAlias d ∈ file.declarations →
      namesShape file.declarations d = true → ¬MixesLiterals (alternatives file.declarations d.node))
    (h : Yields (runWithin depth false file) Registry.empty u r) :
    ∃ r', Yields (runWithin depth true file) Registry.empty u r' := by
  have hagrees : Agrees (fun _ => True) (fun r r' => Paired (fun _ => False) r' r)
      (fun r r' => Paired (fun _ => False) r' r)
      (runWithin depth false file) (runWithin depth true file) := by
    unfold runWithin
    split
    · exact agrees_throw _
    · have hrec : ResolversInStep (fun _ => True) (fun U r r' => Paired U r' r)
          (resolve ⟨file.declarations, false⟩ depth) (resolve ⟨file.declarations, true⟩ depth) :=
        resolve_inStep_enums (fun _ => trivial) hunmixed depth
      exact Agrees.forM fun d hd => declare_inStep (isLockstep_paired fun _ => trivial).flip hrec
        (namedUnions_inStep_flip (fun _ => trivial) hrec hunmixed) hd _
  obtain ⟨r', hrun, -⟩ := hagrees.follows _ _ _ _ .empty h
  exact ⟨r', hrun⟩

/-- What completes the slot of a union of texts is an enumeration or a union, as is asked for. -/
theorem IsTextUnion.shape_of_fills {ctx : ExtractionContext} {keys : List NodeKey}
    {records : Nat → Prop} {asked : Node → Prop} {shape : Shape} {a : Alias}
    (ha : IsTextUnion ctx.scope a) (hscope : IsUnambiguous ctx.scope)
    (h : Fills ctx keys records asked (.declared a.name) shape) :
    (ctx.unionsAsEnums = true →
      shape = .enumeration a.name a.doc (literalTypes (alternatives ctx.scope a.node))) ∧
    (ctx.unionsAsEnums = false → ∃ types, shape = .union (some a.name) a.doc types) := by
  cases h.completesDeclaration hscope ha.mem with
  | objectAlias _ hobject => cases ha.texts _ (hobject ▸ List.mem_singleton_self _)
  | unionAlias _ _ htexts =>
    refine ⟨fun henums => ?_, fun _ => ⟨_, rfl⟩⟩
    rw [isTextEnumeration, henums, Bool.true_and, List.all_eq_false] at htexts
    obtain ⟨n, hn, hnot⟩ := htexts
    exact absurd (ha.texts n hn) hnot
  | textAlias _ htexts =>
    refine ⟨fun _ => rfl, fun hunions => ?_⟩
    rw [isTextEnumeration, hunions, Bool.false_and] at htexts
    cases htexts

/-- **Tables that are paired** correspond, once all slots are complete. -/
theorem Paired.corresponds (h : Paired (fun _ => False) r r')
    (hscope : IsUnambiguous scope) (hcomplete : IsComplete ⟨scope, true⟩ r)
    (hgrows : Grows ⟨scope, true⟩ (Resolved ⟨scope, true⟩) Registry.empty r)
    (hcomplete' : IsComplete ⟨scope, false⟩ r') : Corresponds scope r.graph r'.graph where
  length := h.length
  entries {i d d'} hd hd' := by
    obtain ⟨key, hkey, hfills⟩ := hcomplete.exists_key hd
    obtain ⟨key', hkey', hfills'⟩ := hcomplete'.exists_key hd'
    obtain rfl := Option.some.inj (hkey.symm.trans (h.keys ▸ hkey'))
    have hid := (hcomplete.exists_fills hd).1
    by_cases htexts : ∃ a, IsTextUnion scope a ∧ key = .declared a.name
    · obtain ⟨a, ha, rfl⟩ := htexts
      have hshape := (ha.shape_of_fills hscope hfills).1 rfl
      obtain ⟨types, hshape'⟩ := (ha.shape_of_fills hscope hfills').2 rfl
      refine .inr ⟨a, ha, ?_⟩
      cases h.pairs hd hd' with
      | same => cases hshape.symm.trans hshape'
      | texts =>
        cases hshape
        cases hshape'
        cases hid
        exact ⟨rfl, rfl⟩
    · refine .inl ⟨?_, fun a ha hname => htexts ⟨a, ha, hfills.name?_eq_some_iff.mp hname⟩⟩
      cases h.pairs hd hd' with
      | same => rfl
      | texts =>
        -- an enumeration with the key of a union is that of an alias, whose alternatives are texts
        generalize hkind : Shape.enumeration _ _ _ = shape at hfills
        cases hfills with
        | textAlias hmem hshape hall =>
          exact absurd ⟨_, ⟨hmem, isTextEnumeration_iff.mp hall⟩, rfl⟩ htexts
        | enumeration hmem =>
          generalize hkind' : Shape.union _ _ _ = shape' at hfills'
          generalize hsame : NodeKey.declared _ = key at hfills'
          cases hfills' with
          | unionAlias hmem' => cases hscope.eq hmem hmem' (NodeKey.declared.inj hsame)
          | _ => cases hkind'
        | _ => cases hkind
  present ha := hcomplete.exists_name?_iff hscope hgrows ha.mem

/-- **Asking for enumerations** changes unions of texts only. A file that has a table with
enumerations has one with unions, and the two correspond; a file that has a table with unions has one
with enumerations unless an alias that names a shape mixes texts and other literals. -/
theorem enums_or_unions (file : SourceUnit) :
    (∀ g, extract true file = .ok g →
      ∃ g', extract false file = .ok g' ∧ Corresponds file.declarations g g') ∧
    ∀ g', extract false file = .ok g' →
      ((∃ g, extract true file = .ok g) ↔
        ∀ d, .typeAlias d ∈ file.declarations → namesShape file.declarations d = true →
          ¬MixesLiterals (alternatives file.declarations d.node)) := by
  refine ⟨fun g hg => ?_, fun g' hg' => ⟨?_, fun hunmixed => ?_⟩⟩
  · obtain ⟨r, hrun, rfl⟩ := yields_of_extract hg
    obtain ⟨r', hrun', hpaired⟩ := runWithin_unions hrun
    obtain ⟨hscope, hcomplete, hgrows⟩ := isComplete_of_run hrun
    obtain ⟨-, hcomplete', -⟩ := isComplete_of_runWithin hrun'
    -- a bound one larger makes no difference, since the file has a table and so all arrays end
    have hwithin := extractWithin_eq_ok_iff.mpr ⟨r', hrun', rfl⟩
    have hends := not_hasEndlessArray_of_extractWithin hwithin
    refine ⟨r'.graph, ?_, hpaired.corresponds hscope hcomplete hgrows hcomplete'⟩
    rw [extract_eq_extractWithin, ← extractWithin_succ, hwithin]
    exact extractWithin_ne_endless hends (Nat.le_refl _)
  · rintro ⟨g, hg⟩ d hd hshape hmixed
    obtain ⟨r, hrun, rfl⟩ := yields_of_extract hg
    have hunmixed := (isAccepted_of_run hrun).unmixed hd hshape
    rw [isMixed_iff.mpr hmixed] at hunmixed
    cases hunmixed
  · obtain ⟨r', hrun', rfl⟩ := yields_of_extract hg'
    obtain ⟨r, hrun⟩ := runWithin_enums hunmixed hrun'
    exact ⟨r.graph, extract_eq_extractWithin.trans (extractWithin_eq_ok_iff.mpr ⟨r, hrun, rfl⟩)⟩

/-- Two unions of texts, one of which is the type of an argument with a default, and one text. -/
def colourFile : SourceUnit where
  imports := []
  declarations := [
    .typeAlias ⟨"Colour", .union [.literal (.str "red"), .literal (.str "green"), .keyword .null], none,
      ⟨1, 6⟩⟩,
    .interface ⟨"Query", [], [
      ⟨"paint", .function [⟨"how", .reference "Paint" [] ⟨2, 29⟩, false⟩]
        (.reference "Dark" [] ⟨2, 37⟩), false, false, none, ⟨2, 19⟩⟩], none, ⟨2, 11⟩⟩,
    .interface ⟨"Paint", [], [
      ⟨"colour", .reference "Default" [.reference "Colour" [] ⟨3, 35⟩, .literal (.str "red")] ⟨3, 27⟩,
        false, false, none, ⟨3, 19⟩⟩], none, ⟨3, 11⟩⟩,
    .typeAlias ⟨"Dark", .literal (.str "dark"), none, ⟨4, 6⟩⟩,
    .typeAlias ⟨"Shade", .union [.reference "Colour" [] ⟨5, 14⟩, .literal (.str "dark")], none,
      ⟨5, 6⟩⟩]

/-- The table of the colours with enumerations. -/
def colourTable : Graph := [
  ⟨1, .enumeration "Colour" none [
    .primitive ⟨"string", "'red'", some (.str "red")⟩,
    .primitive ⟨"string", "'green'", some (.str "green")⟩]⟩,
  ⟨2, .record "Query" none [
    ⟨"paint", .primitive ⟨"string", "Dark", some (.str "dark")⟩, none, false, false, none, some 2⟩]⟩,
  ⟨3, .record "Paint" none [
    ⟨"colour", .node 0, none, false, true, some (.str "red"), none⟩]⟩,
  ⟨4, .enumeration "Shade" none [
    .primitive ⟨"string", "'red'", some (.str "red")⟩,
    .primitive ⟨"string", "'green'", some (.str "green")⟩,
    .primitive ⟨"string", "'dark'", some (.str "dark")⟩]⟩]

set_option maxRecDepth 4000 in
theorem enums_or_unions_colourFile : extract true colourFile = .ok colourTable ∧
    ∃ g', extract false colourFile = .ok g' ∧
      Corresponds colourFile.declarations colourTable g' := by
  have h : extract true colourFile = .ok colourTable := by cbv
  exact ⟨h, (enums_or_unions colourFile).1 colourTable h⟩

end Extraction

end DeclaredSchema
