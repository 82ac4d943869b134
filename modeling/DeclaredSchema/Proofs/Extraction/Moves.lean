import DeclaredSchema.Proofs.Extraction.Table

/-!
# What extraction does to the table

All that a resolution does to the table, whatever it is asked to resolve, is a sequence of moves:
a record, an enumeration or a union takes a slot, other moves are made while it is underway, and its
members are put in place. A union gets its alternatives one by one, and other moves are made in
between. What every move keeps therefore holds at the end of extraction.

Besides what happens to the table, the moves say what the run has made sure of: defaults are checked
against the table as it stands, and no type is a generic name without its arguments.

## Main definitions

* `IsChecked` — a default value is one that the type of its member admits
* `IsSayable`, `IsUnmixed`, `Inherits` — types and unions that were not refused
* `Moves` — sequences of moves
* `Lengthens` — a table has grown, and only the union underway has changed

## Main results

* `Moves.lengthens` — moves change no slot but that of the union underway
* `moves_of_run` — extraction makes moves only
-/

namespace DeclaredSchema

namespace Extraction

/-- The table admits the default value of a member, if it has one. -/
def IsChecked (g : Graph) (m : Member) : Prop := ∀ v, m.default = some v → g.admits m.type v = true

/-- The names that need arguments, unless they are declared. -/
def genericNames : List String := defaultName :: arrayNames

/-- The type is not the scalar that a name without its arguments would be. -/
def IsSayable (scope : Scope) : TypeRef → Prop
  | .primitive p => ∀ name ∈ genericNames, scope.find? name = none → p ≠ ⟨name, name, none⟩
  | .array element => IsSayable scope element
  | _ => True

/-- A member is checked, and its type is sayable. -/
structure IsSound (scope : Scope) (g : Graph) (m : Member) : Prop where
  checked : IsChecked g m
  sayable : IsSayable scope m.type

/-- Whether the alternatives of an alias are literals, some of them texts and some not, although
texts should become enumerations. -/
def isMixed (ctx : ExtractionContext) (ns : List Node) : Bool :=
  let values := ns.filterMap fun n => n.expr.literal?
  ctx.unionsAsEnums && values.length == ns.length && (values.any fun v => v.text?.isSome) &&
    !values.all fun v => v.text?.isSome

/-- If the key is that of an alias, its alternatives are not mixed. -/
def IsUnmixed (ctx : ExtractionContext) (key : NodeKey) : Prop :=
  ∀ d, .typeAlias d ∈ ctx.scope → key = .declared d.name →
    isMixed ctx (alternatives ctx.scope d.node) = false

/-- If the key is that of an interface, all members that it inherits have sayable types, also those
that do not count because a later one has the same name. -/
def Inherits (ctx : ExtractionContext) (keys : List NodeKey) (key : NodeKey) : Prop :=
  ∀ d, .interface d ∈ ctx.scope → key = .declared d.name →
    ∀ s, .member s ∈ lineage ctx.scope d →
      ∃ t, IsAlternative ctx.scope keys (typeOf s) t ∧ IsSayable ctx.scope t

/-- Moves that lead from one table to another. If a slot is given, then it holds a union that is
underway, and the moves may add alternatives to it. -/
inductive Moves (ctx : ExtractionContext) : Option Nat → Registry → Registry → Prop
  | done {top : Option Nat} {r : Registry} : Moves ctx top r r
  | record {top : Option Nat} {r r₁ r₂ : Registry} {key : NodeKey} {shape : Shape}
      {ms : List Member} (h : Moves ctx top r r₁) (hempty : shape.members? = some [])
      (hinner : Moves ctx none (r₁.add key shape) r₂)
      (hsound : ∀ m ∈ ms, IsSound ctx.scope r₂.graph m)
      (hinherits : r₁.keys.length = r₁.graph.length → Inherits ctx r₂.keys key) :
      Moves ctx top r (r₂.update r₁.graph.length (Shape.withMembers ms))
  | enumeration {top : Option Nat} {r r₁ : Registry} {key : NodeKey} {name : String}
      {doc : Option String} {values : List TypeRef} (h : Moves ctx top r r₁) :
      Moves ctx top r ((r₁.add key (.enumeration name doc [])).update r₁.graph.length
        (Shape.withValues values))
  | texts {top : Option Nat} {r r₁ : Registry} {key : NodeKey} {name : String}
      {doc : Option String} {values : List TypeRef} (h : Moves ctx top r r₁) :
      Moves ctx top r (r₁.add key (.enumeration name doc values))
  | union {top : Option Nat} {r r₁ r₂ : Registry} {key : NodeKey} {name doc : Option String}
      (h : Moves ctx top r r₁) (hunmixed : IsUnmixed ctx key)
      (hinner : Moves ctx (some r₁.graph.length) (r₁.add key (.union name doc [])) r₂) :
      Moves ctx top r (r₂.update r₁.graph.length Shape.reverseAlternatives)
  | alternative {slot : Nat} {r r₁ : Registry} {t : TypeRef} (h : Moves ctx (some slot) r r₁)
      (ht : IsSayable ctx.scope t) :
      Moves ctx (some slot) r (r₁.update slot (Shape.addAlternative t))

/-- The table has grown, and no slot has changed but that of the union underway, which may have got
alternatives. -/
structure Lengthens (top : Option Nat) (g g' : Graph) : Prop where
  length : g.length ≤ g'.length
  others : ∀ {i d}, top ≠ some i → g[i]? = some d → g'[i]? = some d
  underway : ∀ {slot id name doc acc}, top = some slot →
    g[slot]? = some ⟨id, .union name doc acc⟩ →
    ∃ more, g'[slot]? = some ⟨id, .union name doc (more ++ acc)⟩

variable {ctx : ExtractionContext} {r r' r₁ r₂ : Registry} {top : Option Nat} {slot : Nat}
  {key : NodeKey} {shape : Shape} {g g' : Graph} {m : Member} {rec : Resolver} {n : Node}
  {s : Signature} {t : TypeRef} {owner : String} {u : PUnit} {f : Shape → Shape}

namespace Moves

theorem trans {a b c : Registry} (h : Moves ctx top a b) (h' : Moves ctx top b c) : Moves ctx top a c := by
  induction h' with
  | done => exact h
  | record _ hempty hinner hsound hinherits ih => exact .record (ih h) hempty hinner hsound hinherits
  | enumeration _ ih => exact .enumeration (ih h)
  | texts _ ih => exact .texts (ih h)
  | union _ hunmixed hinner ih => exact .union (ih h) hunmixed hinner
  | alternative _ ht ih => exact .alternative (ih h) ht

/-- Moves that leave the union underway as it is. -/
theorem lift (h : Moves ctx none r r') : Moves ctx top r r' := by
  generalize hnone : (none : Option Nat) = top' at h
  induction h with
  | done => exact .done
  | record _ hempty hinner hsound hinherits ih =>
    exact .record (ih hnone) hempty hinner hsound hinherits
  | enumeration _ ih => exact .enumeration (ih hnone)
  | texts _ ih => exact .texts (ih hnone)
  | union _ hunmixed hinner ih => exact .union (ih hnone) hunmixed hinner
  | alternative => cases hnone

end Moves

namespace Lengthens

theorem refl (g : Graph) : Lengthens top g g :=
  ⟨Nat.le_refl _, fun _ hd => hd, fun _ hd => ⟨[], hd⟩⟩

theorem trans {a b c : Graph} (h : Lengthens top a b) (h' : Lengthens top b c) :
    Lengthens top a c where
  length := Nat.le_trans h.length h'.length
  others hi hd := h'.others hi (h.others hi hd)
  underway htop hd := by
    obtain ⟨more, hmore⟩ := h.underway htop hd
    obtain ⟨more', hmore'⟩ := h'.underway htop hmore
    exact ⟨more' ++ more, by rw [hmore', List.append_assoc]⟩

theorem of_isPrefix (h : g <+: g') : Lengthens top g g' :=
  ⟨h.length_le, fun _ hd => getElem?_of_isPrefix h hd, fun _ hd => ⟨[], getElem?_of_isPrefix h hd⟩⟩

/-- A change to a slot that is not there yet. -/
theorem update (h : Lengthens top g r.graph) (hslot : g[slot]? = none) :
    Lengthens top g (r.update slot f).graph where
  length := by
    rw [Registry.length_graph_update]
    exact h.length
  others {i d} hi hd := by
    rw [getElem?_graph_update, if_neg, h.others hi hd]
    rintro rfl
    rw [hslot] at hd
    cases hd
  underway {i id name doc acc} hi hd := by
    rw [getElem?_graph_update, if_neg]
    · exact h.underway hi hd
    · rintro rfl
      rw [hslot] at hd
      cases hd

end Lengthens

theorem getElem?_graph_length : r.graph[r.graph.length]? = none :=
  List.getElem?_eq_none (Nat.le_refl _)

/-- **Moves change the union underway only**, and it only gets alternatives. -/
theorem Moves.lengthens (h : Moves ctx top r r') : Lengthens top r.graph r'.graph := by
  induction h with
  | done => exact .refl _
  | @record _ _ r₁ r₂ _ _ _ _ _ _ _ _ ih ihinner =>
    refine ih.trans (.update ?_ getElem?_graph_length)
    refine ⟨?_, fun hi hd => ?_, fun hi hd => ?_⟩
    · exact Nat.le_trans (Nat.le_add_right _ 1) (Registry.length_graph_add .. ▸ ihinner.length)
    · exact ihinner.others nofun (getElem?_of_isPrefix (List.prefix_append ..) hd)
    · exact ⟨[], ihinner.others nofun (getElem?_of_isPrefix (List.prefix_append ..) hd)⟩
  | enumeration _ ih =>
    exact ih.trans (.update (.of_isPrefix (List.prefix_append ..)) getElem?_graph_length)
  | texts _ ih => exact ih.trans (.of_isPrefix (List.prefix_append ..))
  | @union _ _ r₁ r₂ _ _ _ _ _ _ ih ihinner =>
    refine ih.trans (.update ?_ getElem?_graph_length)
    have hold : ∀ {i : Nat} {d : Descriptor}, r₁.graph[i]? = some d → r₂.graph[i]? = some d := by
      intro i d hd
      refine ihinner.others ?_ (getElem?_of_isPrefix (List.prefix_append ..) hd)
      intro heq
      cases heq
      rw [getElem?_graph_length] at hd
      cases hd
    refine ⟨?_, fun _ hd => hold hd, fun _ hd => ⟨[], hold hd⟩⟩
    exact Nat.le_trans (Nat.le_add_right _ 1) (Registry.length_graph_add .. ▸ ihinner.length)
  | @alternative slot _ r₁ t _ _ ih =>
    refine ih.trans ⟨?_, fun hi hd => ?_, fun hi hd => ?_⟩
    · exact Nat.le_of_eq (Registry.length_graph_update ..).symm
    · rw [getElem?_graph_update, if_neg fun heq => hi (congrArg some heq), hd]
    · obtain rfl := Option.some.inj hi
      rw [getElem?_graph_update, if_pos rfl, hd]
      exact ⟨[t], rfl⟩

/-- A value that a table admits is admitted when the table has more slots. -/
theorem IsChecked.mono (h : Lengthens none g g') (hm : IsChecked g m) : IsChecked g' m := by
  intro v hv
  have hadmits := hm v hv
  cases htype : m.type with
  | primitive p => rwa [htype] at hadmits
  | array | untypedArray | date | foreign => rw [htype] at hadmits; cases hadmits
  | node slot =>
    rw [htype] at hadmits
    cases hslot : g[slot]? with
    | none => simp [Graph.admits, hslot] at hadmits
    | some d =>
      rw [Graph.admits, hslot] at hadmits
      rwa [Graph.admits, h.others nofun hslot]

/-! ### The steps of extraction are moves -/

/-- Every successful resolution makes moves, and yields a type that can be said. -/
def Makes (ctx : ExtractionContext) (rec : Resolver) : Prop :=
  ∀ {n raw owner r t r'}, Yields (rec n raw owner) r t r' →
    Moves ctx none r r' ∧ IsSayable ctx.scope t

theorem alternative_moves (hrec : Makes ctx rec) (h : Yields (alternative ctx rec owner n) r t r') :
    Moves ctx none r r' ∧ IsSayable ctx.scope t := by
  rw [alternative, yields_bind] at h
  obtain ⟨inner, a, hstrip, h⟩ := h
  obtain ⟨-, rfl⟩ := strips_of_yields hstrip
  exact hrec h

theorem argumentBag_moves (hrec : Makes ctx rec) {ps : List (Parameter TypeExpr)}
    {bag : Option Nat} (h : Yields (argumentBag ctx rec s ps) r bag r') : Moves ctx none r r' := by
  match ps with
  | [] =>
    obtain ⟨-, rfl⟩ := yields_pure.mp h
    exact .done
  | [p] =>
    rw [argumentBag, yields_bind] at h
    obtain ⟨inner, a, hstrip, h⟩ := h
    obtain ⟨-, rfl⟩ := strips_of_yields hstrip
    rw [yields_bind] at h
    obtain ⟨t, b, hresolved, h⟩ := h
    rw [yields_get_bind] at h
    split at h
    · rw [yields_ite] at h
      rcases h with ⟨-, h⟩ | ⟨-, h⟩
      · obtain ⟨-, rfl⟩ := yields_pure.mp h
        exact (hrec hresolved).1
      · exact absurd h yields_failAt
    · exact absurd h yields_failAt
  | _ :: _ :: _ => exact absurd h yields_failAt

theorem splitArguments_moves (hrec : Makes ctx rec) {x : Option Nat × Node}
    (h : Yields (splitArguments ctx rec s) r x r') : Moves ctx none r r' := by
  unfold splitArguments at h
  split at h
  · obtain ⟨bag, a, hbag, h⟩ := yields_bind.mp h
    obtain ⟨-, rfl⟩ := yields_pure.mp h
    exact argumentBag_moves hrec hbag
  · obtain ⟨-, rfl⟩ := yields_pure.mp h
    exact .done

/-- **Members** are sound in the table that resolving them leaves. -/
theorem member_moves (hrec : Makes ctx rec) (h : Yields (member ctx rec s) r m r') :
    Moves ctx none r r' ∧ IsSound ctx.scope r'.graph m := by
  unfold member at h
  simp only [yields_bind, Prod.exists] at h
  obtain ⟨bag, result, a, hbag, type, default, b, hdefault, inner, c, hstrip, t, d, hresolved, _, _,
    hget, h⟩ := h
  obtain ⟨-, rfl⟩ := yields_splitDefault hdefault
  obtain ⟨-, rfl⟩ := strips_of_yields hstrip
  obtain ⟨rfl, rfl⟩ := yields_get.mp hget
  obtain ⟨hmoves', hsayable⟩ := hrec hresolved
  have hmoves := (splitArguments_moves hrec hbag).trans hmoves'
  split at h
  · next value =>
    rw [yields_ite] at h
    rcases h with ⟨-, h⟩ | ⟨hadmits, h⟩
    · obtain ⟨_, _, hfail, -⟩ := yields_bind.mp h
      exact absurd hfail yields_failAt
    · obtain ⟨rfl, rfl⟩ := yields_pure.mp h
      refine ⟨hmoves, fun v hv => ?_, hsayable⟩
      cases hv
      simpa using hadmits
  · obtain ⟨rfl, rfl⟩ := yields_pure.mp h
    exact ⟨hmoves, (fun _ hv => by cases hv), hsayable⟩

theorem members_moves (hrec : Makes ctx rec) {ss : List Signature} {ms : List Member}
    (h : Yields (members ctx rec ss) r ms r') :
    Moves ctx none r r' ∧ ∀ m ∈ ms, IsSound ctx.scope r'.graph m := by
  obtain ⟨-, hmoves, hall⟩ := Yields.mapM (fun _ => True) (Moves ctx none)
    (fun r _ m => IsSound ctx.scope r.graph m) (fun _ => .done) .trans
    (fun hmoves hm => ⟨hm.checked.mono hmoves.lengthens, hm.sayable⟩)
    (fun s _ a m b _ hm => ⟨trivial, member_moves hrec hm⟩) h trivial
  refine ⟨hmoves, fun m hm => ?_⟩
  obtain ⟨s, -, hsound⟩ := exists_of_forall₂ hall.flip hm
  exact hsound

theorem inherit_moves (hrec : Makes ctx rec) {step : LineageStep} {ms ms' : List Member}
    (h : Yields (inherit ctx rec ms step) r ms' r') :
    Moves ctx none r r' ∧ ∃ m, IsSound ctx.scope r'.graph m ∧ ms' = insertByKey Member.name m ms := by
  cases step with
  | member s =>
    rw [inherit, yields_bind] at h
    obtain ⟨m, a, hm, h⟩ := h
    obtain ⟨rfl, rfl⟩ := yields_pure.mp h
    obtain ⟨hmoves, hsound⟩ := member_moves hrec hm
    exact ⟨hmoves, m, hsound, rfl⟩
  | inheritsItself d => exact absurd h yields_failAt
  | notABase d base => exact absurd h yields_failAt

theorem foldlM_inherit_moves (hrec : Makes ctx rec) {steps : List LineageStep}
    {acc out : List Member} (h : Yields (steps.foldlM (inherit ctx rec) acc) r out r') :
    Moves ctx none r r' ∧ ∃ ms : List Member, (∀ m ∈ ms, IsSound ctx.scope r'.graph m) ∧
      out = ms.foldl (fun table m => insertByKey Member.name m table) acc := by
  induction steps generalizing acc r with
  | nil =>
    obtain ⟨rfl, rfl⟩ := yields_pure.mp h
    exact ⟨.done, [], fun m hm => absurd hm List.not_mem_nil, rfl⟩
  | cons step rest ih =>
    rw [List.foldlM_cons, yields_bind] at h
    obtain ⟨acc', a, hstep, h⟩ := h
    obtain ⟨hmoves, m, hm, rfl⟩ := inherit_moves hrec hstep
    obtain ⟨hmoves', ms, hms, rfl⟩ := ih h
    exact ⟨hmoves.trans hmoves', m :: ms,
      List.forall_mem_cons.mpr ⟨⟨hm.checked.mono hmoves'.lengthens, hm.sayable⟩, hms⟩, rfl⟩

/-- What members stand for is sayable, those included that do not count. -/
theorem foldlM_inherit_sayable (hrec : Makes ctx rec)
    (hresolver : IsResolver ctx (fun _ => True) rec) {steps : List LineageStep}
    {acc out : List Member} (hlength : r.keys.length = r.graph.length)
    (h : Yields (steps.foldlM (inherit ctx rec) acc) r out r') {s : Signature}
    (hs : .member s ∈ steps) :
    ∃ t, IsAlternative ctx.scope r'.keys (typeOf s) t ∧ IsSayable ctx.scope t := by
  induction steps generalizing acc r with
  | nil => cases hs
  | cons step rest ih =>
    rw [List.foldlM_cons, yields_bind] at h
    obtain ⟨acc', a, hstep, h⟩ := h
    have hadmits : ∀ n, Admits ctx (fun _ => True) n := fun _ _ _ => trivial
    obtain ⟨hkeeps, -⟩ :=
      inherit_keeps hresolver (inv_of_length hlength) (fun n _ => hadmits n) hstep
    rcases List.mem_cons.mp hs with rfl | hs
    · rw [inherit, yields_bind] at hstep
      obtain ⟨m, b, hm, hdone⟩ := hstep
      obtain ⟨-, rfl⟩ := yields_pure.mp hdone
      obtain ⟨-, hmember⟩ :=
        member_keeps hresolver (inv_of_length hlength) (fun n _ => hadmits n) hm
      obtain ⟨-, hsound⟩ := member_moves hrec hm
      obtain ⟨inner, hstrips, hdenotes, -⟩ := hmember.type
      obtain ⟨hkeeps', -⟩ :=
        foldlM_inherit_keeps hresolver hkeeps.inv (fun n _ => hadmits n) h
      exact ⟨m.type, ⟨inner, hstrips, hdenotes.mono hkeeps'.grows.keys⟩, hsound.sayable⟩
    · exact ih hkeeps.inv.length h hs

theorem foldLineage_moves (hrec : Makes ctx rec) (hresolver : IsResolver ctx (fun _ => True) rec)
    {d : Interface} {out : List Member}
    (h : Yields (foldLineage ctx.scope (inherit ctx rec) d []) r out r') :
    Moves ctx none r r' ∧ (∀ m ∈ out, IsSound ctx.scope r'.graph m) ∧
      (r.keys.length = r.graph.length → ∀ s, .member s ∈ lineage ctx.scope d →
        ∃ t, IsAlternative ctx.scope r'.keys (typeOf s) t ∧ IsSayable ctx.scope t) := by
  rw [foldLineage_eq_foldlM] at h
  obtain ⟨hmoves, ms, hms, rfl⟩ := foldlM_inherit_moves hrec h
  refine ⟨hmoves, fun m hm => ?_, fun hlength s hs => ?_⟩
  · rw [foldl_insertByKey] at hm
    exact hms m (mem_of_mem_lastOfEach hm)
  · exact foldlM_inherit_sayable hrec hresolver hlength h hs

/-! ### Slots -/

/-- A slot is found, or a new one is taken and completed. -/
theorem moves_of_slotOf {fresh : Extract Nat}
    (hfresh : Yields fresh r slot r' → Moves ctx none r r')
    (h : Yields (do
      match ← slotOf key with
      | some slot => return slot
      | none => fresh) r slot r') : Moves ctx none r r' := by
  obtain ⟨found, a, hfound, h⟩ := yields_bind.mp h
  obtain ⟨-, rfl⟩ := yields_slotOf.mp hfound
  cases found with
  | some slot' =>
    obtain ⟨-, rfl⟩ := yields_pure.mp h
    exact .done
  | none => exact hfresh h

theorem interface_moves (hscope : IsUnambiguous ctx.scope) (hrec : Makes ctx rec)
    (hresolver : IsResolver ctx (fun _ => True) rec) {d : Interface}
    (hd : .interface d ∈ ctx.scope) (h : Yields (interface ctx rec d) r slot r') :
    Moves ctx none r r' := by
  refine moves_of_slotOf (fun h => ?_) h
  simp only [yields_bind, yields_register, yields_change, yields_pure] at h
  obtain ⟨_, _, ⟨rfl, rfl⟩, ms, b, hms, _, _, rfl, rfl, rfl⟩ := h
  obtain ⟨hmoves, hsound, hall⟩ := foldLineage_moves hrec hresolver hms
  refine .record .done rfl hmoves hsound fun hlength d' hd' hname => ?_
  cases hscope.eq hd hd' (NodeKey.declared.inj hname)
  refine hall ?_
  rw [Registry.keys_add, Registry.length_graph_add, List.length_append, List.length_singleton,
    hlength]

/-- The key of another declaration is not that of an interface. -/
theorem inherits_of_mem (hscope : IsUnambiguous ctx.scope) {d : Declaration} (hd : d ∈ ctx.scope)
    (hother : ∀ d', d ≠ .interface d') {keys : List NodeKey} :
    Inherits ctx keys (.declared d.name) :=
  fun d' hd' hname => absurd (hscope.eq hd hd' (NodeKey.declared.inj hname)) (hother d')

theorem inherits_inline {site : Site} {keys : List NodeKey} : Inherits ctx keys (.inline site) :=
  fun _ _ hname => by cases hname

theorem enumeration_moves {d : Enumeration} (h : Yields (enumeration d) r slot r') :
    Moves ctx none r r' := by
  refine moves_of_slotOf (fun h => ?_) h
  simp only [yields_bind, yields_register, yields_change, yields_pure] at h
  obtain ⟨_, _, ⟨rfl, rfl⟩, values, b, hvalues, _, _, rfl, rfl, rfl⟩ := h
  obtain ⟨-, rfl, -⟩ := Yields.mapM (fun _ => True) (fun r r' => r' = r) (fun _ _ _ => True)
    (fun _ => rfl) (fun h h' => h'.trans h) (fun _ h => h)
    (fun _ _ _ _ _ _ hm => ⟨trivial, (enumValue_yields hm).2, trivial⟩) hvalues trivial
  exact .enumeration .done

theorem fillUnion_moves (hrec : Makes ctx rec) {ns : List Node} {r₀ : Registry}
    (hmoves : Moves ctx (some slot) r₀ r) (h : Yields (fillUnion ctx rec slot owner ns) r u r') :
    ∃ r₁, Moves ctx (some slot) r₀ r₁ ∧ r' = r₁.update slot Shape.reverseAlternatives := by
  induction ns generalizing r with
  | nil => exact ⟨r, hmoves, yields_change.mp h⟩
  | cons n rest ih =>
    simp only [fillUnion, yields_bind, yields_change] at h
    obtain ⟨t, a, ht, _, _, rfl, h⟩ := h
    obtain ⟨hmoves', hsayable⟩ := alternative_moves hrec ht
    exact ih (.alternative (hmoves.trans hmoves'.lift) hsayable) h

theorem newUnion_moves (hrec : Makes ctx rec) (hunmixed : IsUnmixed ctx key)
    {name doc : Option String} {ns : List Node}
    (h : Yields (newUnion ctx rec key name doc owner ns) r slot r') : Moves ctx none r r' := by
  simp only [newUnion, yields_bind, yields_register, yields_pure] at h
  obtain ⟨_, _, ⟨rfl, rfl⟩, _, _, hfill, rfl, rfl⟩ := h
  obtain ⟨r₁, hmoves, rfl⟩ := fillUnion_moves hrec .done hfill
  exact .union .done hunmixed hmoves

theorem isUnmixed_of_isMixed_eq_false (hscope : IsUnambiguous ctx.scope) {d : Alias}
    (hd : .typeAlias d ∈ ctx.scope) (h : isMixed ctx (alternatives ctx.scope d.node) = false) :
    IsUnmixed ctx (.declared d.name) := by
  intro d' hd' hname
  have heq : Declaration.typeAlias d = .typeAlias d' :=
    hscope.eq hd hd' (NodeKey.declared.inj hname)
  cases heq
  exact h

theorem namedUnion_moves (hscope : IsUnambiguous ctx.scope) (hrec : Makes ctx rec) {d : Alias}
    (hd : .typeAlias d ∈ ctx.scope)
    (h : Yields (namedUnion ctx rec d (alternatives ctx.scope d.node)) r slot r') :
    Moves ctx none r r' := by
  have hnew : isMixed ctx (alternatives ctx.scope d.node) = false →
      Yields (newUnion ctx rec (.declared d.name) (some d.name) d.doc d.name
        (alternatives ctx.scope d.node)) r slot r' → Moves ctx none r r' :=
    fun hmixed h => newUnion_moves hrec (isUnmixed_of_isMixed_eq_false hscope hd hmixed) h
  unfold namedUnion at h
  simp only [yields_ite, yields_failAt, and_false, false_or] at h
  rcases h with ⟨-, ⟨-, h⟩ | ⟨-, hany, h⟩⟩ | ⟨hliterals, h⟩
  · obtain ⟨rfl, rfl⟩ := yields_register.mp h
    exact .texts .done
  · refine hnew ?_ h
    rw [isMixed, Bool.eq_false_iff.mpr hany, Bool.and_false, Bool.false_and]
  · refine hnew ?_ h
    rw [isMixed, Bool.eq_false_iff.mpr hliterals, Bool.false_and, Bool.false_and]

theorem aliasSlot?_moves (hscope : IsUnambiguous ctx.scope) (hrec : Makes ctx rec) {d : Alias}
    (hd : .typeAlias d ∈ ctx.scope) {found : Option Nat}
    (h : Yields (aliasSlot? ctx rec d) r found r') : Moves ctx none r r' := by
  rw [aliasSlot?, yields_bind] at h
  obtain ⟨known, a, hknown, h⟩ := h
  obtain ⟨-, rfl⟩ := yields_slotOf.mp hknown
  cases known with
  | some slot =>
    obtain ⟨-, rfl⟩ := yields_pure.mp h
    exact .done
  | none =>
    simp only [yields_ite] at h
    rcases h with ⟨-, h⟩ | ⟨-, h⟩
    · obtain ⟨-, rfl⟩ := yields_pure.mp h
      exact .done
    · split at h
      · simp only [yields_bind, yields_register, yields_change, yields_pure] at h
        obtain ⟨_, _, ⟨rfl, rfl⟩, ms, b, hms, _, _, rfl, rfl, rfl⟩ := h
        obtain ⟨hmoves, hsound⟩ := members_moves hrec hms
        exact .record .done rfl hmoves hsound fun _ =>
          inherits_of_mem hscope hd fun _ h => by cases h
      · rw [yields_bind] at h
        obtain ⟨slot, b, hslot, h⟩ := h
        obtain ⟨-, rfl⟩ := yields_pure.mp h
        exact namedUnion_moves hscope hrec hd hslot

theorem inlineObject_moves (hrec : Makes ctx rec) {site : Site} {ps : List (Property TypeExpr)}
    {position : Position} (h : Yields (inlineObject ctx rec site ps position owner) r slot r') :
    Moves ctx none r r' := by
  refine moves_of_slotOf (fun h => ?_) h
  simp only [yields_bind, yields_register, yields_change, yields_pure] at h
  obtain ⟨_, _, ⟨rfl, rfl⟩, ms, b, hms, _, _, rfl, rfl, rfl⟩ := h
  obtain ⟨hmoves, hsound⟩ := members_moves hrec hms
  exact .record .done rfl hmoves hsound fun _ => inherits_inline

theorem inlineUnion_moves (hrec : Makes ctx rec) (h : Yields (inlineUnion ctx rec n owner) r slot r') :
    Moves ctx none r r' :=
  moves_of_slotOf (newUnion_moves hrec fun _ _ hkey => by cases hkey) h

/-! ### Resolution -/

theorem array_moves (hrec : Makes ctx rec) (h : Yields (array ctx rec n owner) r t r') :
    Moves ctx none r r' ∧ IsSayable ctx.scope t := by
  rw [array, yields_bind] at h
  obtain ⟨element, a, helement, h⟩ := h
  obtain ⟨rfl, rfl⟩ := yields_pure.mp h
  obtain ⟨hmoves, hsayable⟩ := alternative_moves hrec helement
  exact ⟨hmoves, hsayable⟩

theorem undeclared_moves (hrec : Makes ctx rec) {site : Site} {name : String}
    {arguments : List TypeExpr} {position : Position}
    (h : Yields (undeclared ctx rec site name arguments position owner) r t r') :
    Moves ctx none r r' ∧ IsSayable ctx.scope t := by
  unfold undeclared at h
  simp only [yields_ite, yields_pure, yields_failAt, and_false, false_or] at h
  rcases h with ⟨-, h⟩ | ⟨harray, hdefault, -, ⟨-, rfl, rfl⟩ | ⟨-, rfl, rfl⟩⟩
  · split at h
    · exact array_moves hrec h
    · exact absurd h yields_failAt
  · exact ⟨.done, trivial⟩
  · refine ⟨.done, fun name' hname' _ heq => ?_⟩
    have hname : name = name' := congrArg Primitive.raw heq
    rcases List.mem_cons.mp hname' with rfl | hmem
    · exact hdefault hname
    · exact harray (List.contains_iff_mem.mpr (hname ▸ hmem))

theorem reference_moves (hscope : IsUnambiguous ctx.scope) (hrec : Makes ctx rec)
    (hresolver : IsResolver ctx (fun _ => True) rec) {site : Site}
    {name : String} {arguments : List TypeExpr} {position : Position}
    (h : Yields (reference ctx rec site name arguments position owner) r t r') :
    Moves ctx none r r' ∧ IsSayable ctx.scope t := by
  unfold reference at h
  split at h
  · exact undeclared_moves hrec h
  · next d hfind =>
    have hd : d ∈ ctx.scope := Scope.mem_of_find? hfind
    simp only [yields_ite, yields_failAt, and_false, false_or] at h
    obtain ⟨-, h⟩ := h
    cases d with
    | interface d =>
      simp only [yields_bind, yields_pure] at h
      obtain ⟨slot, a, hslot, rfl, rfl⟩ := h
      exact ⟨interface_moves hscope hrec hresolver hd hslot, trivial⟩
    | enumeration d =>
      simp only [yields_bind, yields_pure] at h
      obtain ⟨slot, a, hslot, rfl, rfl⟩ := h
      exact ⟨enumeration_moves hslot, trivial⟩
    | typeAlias d =>
      simp only [yields_bind] at h
      obtain ⟨found, a, hfound, h⟩ := h
      have hmoves := aliasSlot?_moves hscope hrec hd hfound
      cases found with
      | some slot =>
        obtain ⟨rfl, rfl⟩ := yields_pure.mp h
        exact ⟨hmoves, trivial⟩
      | none => exact absurd h yields_failFor

theorem keywordType_moves {word : TypeKeyword} {raw : Option String}
    (h : Yields (keywordType word raw owner) r t r') :
    Moves ctx none r r' ∧ IsSayable ctx.scope t := by
  have hsayable : ∀ word ∈ [TypeKeyword.string, .number, .boolean],
      IsSayable ctx.scope (.primitive ⟨word.text, raw.getD word.text, none⟩) := by
    have hnames : ∀ word ∈ [TypeKeyword.string, .number, .boolean], ∀ name ∈ genericNames,
        word.text ≠ name := by
      decide
    exact fun word hword name hname _ heq =>
      hnames word hword name hname (congrArg Primitive.name heq)
  unfold keywordType at h
  split at h
  · obtain ⟨rfl, rfl⟩ := yields_pure.mp h
    exact ⟨.done, hsayable _ (by decide)⟩
  · obtain ⟨rfl, rfl⟩ := yields_pure.mp h
    exact ⟨.done, hsayable _ (by decide)⟩
  · obtain ⟨rfl, rfl⟩ := yields_pure.mp h
    exact ⟨.done, hsayable _ (by decide)⟩
  · exact absurd h yields_failFor

theorem resolveStep_makes (hscope : IsUnambiguous ctx.scope) (hrec : Makes ctx rec)
    (hresolver : IsResolver ctx (fun _ => True) rec) : Makes ctx (resolveStep ctx rec) := by
  rintro ⟨site, e⟩ raw owner r t r' h
  cases e with
  | keyword word => exact keywordType_moves h
  | literal value =>
    obtain ⟨rfl, rfl⟩ := yields_pure.mp h
    exact ⟨.done, fun _ _ _ heq => by cases congrArg Primitive.literal heq⟩
  | array element => exact array_moves hrec h
  | object ps position =>
    simp only [resolveStep, yields_bind, yields_pure] at h
    obtain ⟨slot, a, hslot, rfl, rfl⟩ := h
    exact ⟨inlineObject_moves hrec hslot, trivial⟩
  | union es =>
    simp only [resolveStep, yields_bind, yields_pure] at h
    obtain ⟨slot, a, hslot, rfl, rfl⟩ := h
    exact ⟨inlineUnion_moves hrec hslot, trivial⟩
  | reference name arguments position => exact reference_moves hscope hrec hresolver h
  | function parameters result => exact absurd h yields_failFor

/-- **Resolution** makes moves, however deep it goes. -/
theorem resolve_makes (hscope : IsUnambiguous ctx.scope) (depth : Nat) :
    Makes ctx (resolve ctx depth) := by
  induction depth with
  | zero => exact fun h => absurd h yields_throw
  | succ depth ih =>
    exact resolveStep_makes hscope ih (resolve_isResolver isClosed_true depth)

theorem declare_moves (hscope : IsUnambiguous ctx.scope) {depth : Nat} {d : Declaration}
    (hd : d ∈ ctx.scope) (h : Yields (declare ctx (resolve ctx depth) d) r u r') :
    Moves ctx none r r' := by
  have hrec : Makes ctx (resolve ctx depth) := resolve_makes hscope depth
  cases d with
  | interface d =>
    obtain ⟨slot, hslot, -⟩ := yields_map.mp h
    exact interface_moves hscope hrec (resolve_isResolver isClosed_true depth) hd hslot
  | enumeration d =>
    obtain ⟨slot, hslot, -⟩ := yields_map.mp h
    exact enumeration_moves hslot
  | typeAlias d =>
    obtain ⟨found, hfound, -⟩ := yields_map.mp h
    exact aliasSlot?_moves hscope hrec hd hfound

/-- **Extraction** makes moves only. -/
theorem moves_of_run {unionsAsEnums : Bool} {file : SourceUnit}
    (h : Yields (run unionsAsEnums file) r u r') :
    Moves ⟨file.declarations, unionsAsEnums⟩ none r r' := by
  unfold run at h
  split at h
  · exact absurd h yields_failAt
  · next hnone =>
    obtain ⟨hscope, -⟩ := isUnambiguous_of_duplicate?_eq_none hnone
    exact (Yields.forM (fun _ => True) (Moves _ none) (fun _ _ => True) (fun _ => .done) .trans
      (fun _ h => h) (fun d hd _ _ _ _ h =>
        ⟨trivial, declare_moves hscope hd h, trivial⟩) h trivial).2.1

end Extraction

end DeclaredSchema
