import DeclaredSchema.Proofs.Synthesis.Starts
import DeclaredSchema.Proofs.Synthesis.Run

/-!
# Synthesis ends

Graphs may be cyclic, and yet each way down through one ends: a slot has become something before the
next one is visited, and what has become something is not visited again. So there are no more nested
visits than there are slots and modes, and the bound on them is never met.

Runs with two bounds are taken together, one step at a time: `Traced P m m' Q` says that `m` and `m'`
end alike, and what is known before and after them. A step that makes no slot keeps all that is known
of slots and starts (`IsKept`).

## Main definitions

* `Traced`, `VisitsTraced` — the same step with two bounds
* `Refused` — why a type cannot be made with a text for a name

## Main results

* `visit_traced` — a visit with enough depth below it
* `synthesis_traced` — the runs, whatever the larger bound is
* `synthesis_ends` — synthesis ends, and nothing is made twice
-/

namespace DeclaredSchema

namespace Synthesis

/-- Why a type cannot be made: a shape that has a name by itself, and the name is none; or a factory
that makes no scalar. -/
inductive Refused (g : Graph) (options : CompileOptions) (f : NameFault) : Prop
  | shape {slot : Nat} {s : Shape} {mode : Mode} {n : String} (hs : g.shapeAt? slot = some s)
      (hname : ownName? mode s = some n) (hcheck : checkName n = .error f)
  | factory {make : Primitive → Except NameFault (Option CustomScalar)} {p : Primitive}
      (hmake : options.factory = some make) (herror : make p = .error f)

/-- What is known of a failure and of the draft that it leaves. -/
structure Failed (g : Graph) (options : CompileOptions) (e : SynthesisFailure) (d : Draft) :
    Prop where
  ends : e ≠ .endless
  refused : ∀ {f}, e = .name f → Refused g options f
  tidy : Tidy g d.latestStarts

/-- From a draft with `P`, `m` and `m'` do the same; a success brings about `Q`. -/
def Traced (g : Graph) (options : CompileOptions) {α : Type} (P : Draft → Prop) (m m' : Synth α)
    (Q : α → Draft → Prop) : Prop :=
  Coupled P m m' Q (Failed g options)

/-- Visits that do the same and keep what is known, whatever they visit. -/
def VisitsTraced (g : Graph) (options : CompileOptions) (P : Draft → Prop)
    (visit visit' : Nat → Mode → Synth SchemaType) : Prop :=
  ∀ slot mode, Traced g options P (visit slot mode) (visit' slot mode) fun _ => P

/-- What depends on nothing but the slots that have become something and those that were started. -/
structure IsKept (g : Graph) (P : Draft → Prop) : Prop where
  congr : ∀ {d d' : Draft}, P d → d'.made = d.made → d'.latestStarts = d.latestStarts → P d'
  tidy : ∀ {d : Draft}, P d → Tidy g d.latestStarts

variable {g : Graph} {listed : List TypeRef} {options : CompileOptions} {α β : Type}
  {P : Draft → Prop} {slot : Nat} {mode : Mode} {count : Nat} {label : String}

theorem Orderly.isKept {making : Nat × Mode → Prop} : IsKept g (Orderly g making count) where
  congr {d d'} h hmade hstarts := by
    have hkeys : d'.keys = d.keys := by rw [Draft.keys, Draft.keys, hmade]
    exact ⟨hstarts ▸ h.tidy, hstarts ▸ hkeys ▸ h.started, hkeys ▸ h.nodup, hkeys ▸ h.inside,
      hkeys ▸ h.both, hkeys ▸ h.count⟩
  tidy h := h.tidy

theorem Orderly.of_succ {making : Nat × Mode → Prop} {d : Draft}
    (h : Orderly g making (count + 1) d) : Orderly g making count d :=
  { h with count := Nat.le_of_succ_le h.count }

theorem Making.isKept : IsKept g (Making g slot mode count) where
  congr {d d'} h hmade hstarts := by
    have hkeys : d'.keys = d.keys := by rw [Draft.keys, Draft.keys, hmade]
    exact ⟨Orderly.isKept.congr h.1 hmade hstarts, hkeys ▸ h.2⟩
  tidy h := h.1.tidy

/-! ### Single steps -/

theorem Traced.bind {m m' : Synth α} {f f' : α → Synth β} {Q : α → Draft → Prop}
    {R : β → Draft → Prop} (hm : Traced g options P m m' Q)
    (hf : ∀ a, Traced g options (Q a) (f a) (f' a) R) :
    Traced g options P (m >>= f) (m' >>= f') R :=
  Coupled.bind hm hf

theorem traced_pure {a : α} {Q : α → Draft → Prop} (h : ∀ d, P d → Q a d) :
    Traced g options P (pure a) (pure a) Q :=
  coupled_pure h

theorem traced_modify {f : Draft → Draft} {Q : Draft → Prop} (h : ∀ d, P d → Q (f d)) :
    Traced g options P (modify f) (modify f) fun _ => Q :=
  coupled_modify h

/-- A step that goes on with the draft it starts in. -/
theorem traced_get_bind {f f' : Draft → Synth β} {R : β → Draft → Prop}
    (h : ∀ d, P d → Traced g options (· = d) (f d) (f' d) R) :
    Traced g options P (get >>= f) (get >>= f') R :=
  coupled_get_bind h

theorem traced_set {d : Draft} {Q : Draft → Prop} (h : Q d) :
    Traced g options P (set d) (set d) fun _ => Q :=
  coupled_set h

theorem traced_ite {c : Prop} [Decidable c] {m m' n n' : Synth α} {Q : α → Draft → Prop}
    (hm : c → Traced g options P m m' Q) (hn : ¬c → Traced g options P n n' Q) :
    Traced g options P (if c then m else n) (if c then m' else n') Q :=
  coupled_ite hm hn

theorem Traced.strengthen {P' : Draft → Prop} {m m' : Synth α} {Q : α → Draft → Prop}
    (h : Traced g options P m m' Q) (hP : ∀ d, P' d → P d) : Traced g options P' m m' Q :=
  h.mono hP fun _ _ hq => hq

/-- A step that starts with something that is known apart from the draft. -/
theorem traced_of_imp {p : Prop} {m m' : Synth α} {Q : α → Draft → Prop}
    (h : p → Traced g options P m m' Q) : Traced g options (fun d => P d ∧ p) m m' Q :=
  fun d hd => h hd.2 d hd.1

section Kept

variable (hP : IsKept g P)

include hP

theorem fail_traced {fault : SynthesisFault} {Q : α → Draft → Prop} :
    Traced g options P (fail label fault) (fail label fault) Q :=
  coupled_throw fun _ hd => ⟨nofun, nofun, hP.tidy hd⟩

theorem record_traced {event : Event} :
    Traced g options P (record event) (record event) fun _ => P :=
  traced_modify fun _ hd => hP.congr hd rfl rfl

theorem named_traced {n : String} (h : ∀ f, checkName n = .error f → Refused g options f) :
    Traced g options P (named n) (named n) fun _ => P := by
  unfold named
  cases hcheck : checkName n with
  | ok => exact traced_pure fun _ hd => hd
  | error f =>
    refine coupled_throw fun _ hd => ⟨nofun, ?_, hP.tidy hd⟩
    intro f' heq
    cases heq
    exact h f hcheck

theorem claim_traced {v : NamedType} :
    Traced g options P (claim v label) (claim v label) fun _ => P := by
  unfold claim
  extract_lets rest
  have hrest : ∀ u, Traced g options P (rest u) (rest u) fun _ => P := by
    refine fun _ => traced_get_bind fun d hd => ?_
    cases d.owner? v.name with
    | none => exact traced_set (hP.congr hd rfl rfl)
    | some owner =>
      refine traced_ite (fun _ => traced_pure fun t ht => ht ▸ hd) fun _ => ?_
      exact (fail_traced hP).strengthen fun t ht => ht ▸ hd
  exact traced_ite (fun _ => (fail_traced hP).bind hrest) fun _ => hrest ()

theorem invent_traced {start : String} : Traced g options P (invent start) (invent start)
    fun n d => P d ∧ ∃ k, 0 < k ∧ n = start ++ toString k := by
  refine traced_get_bind fun d hd => ?_
  refine Traced.bind (traced_set (hP.congr hd rfl rfl)) fun _ => ?_
  exact traced_pure fun _ hd => ⟨hd, d.invented + 1, Nat.succ_pos _, rfl⟩

omit hP in
theorem note_traced {modes : List Mode} {n : String} {Q : Draft → Prop}
    (h : ∀ d, P d → Q (noted d slot modes n)) :
    Traced g options P (note slot modes n) (note slot modes n) fun _ => Q :=
  traced_modify h

/-- The last steps of a record or a union. -/
theorem define_traced {n : String} {definition : TypeDefinition} {t : SchemaType} :
    Traced g options P (do modify fun d => d.define n definition; return t)
      (do modify fun d => d.define n definition; return t) fun _ => P :=
  Traced.bind (traced_modify fun _ hd => hP.congr hd rfl rfl) fun _ =>
    traced_pure fun _ hd => hd

/-! ### Scalars -/

theorem customScalar?_traced {p : Primitive} :
    Traced g options P (customScalar? options p) (customScalar? options p) fun _ => P := by
  unfold customScalar?
  split
  · exact traced_pure fun _ hd => hd
  · split
    · exact traced_pure fun _ hd => hd
    · next make hfactory =>
      refine Traced.bind (traced_modify fun _ hd => hP.congr hd rfl rfl) fun _ => ?_
      split
      · exact traced_pure fun _ hd => hd
      · next f hmade =>
        refine coupled_throw fun _ hd => ⟨nofun, ?_, hP.tidy hd⟩
        intro f' heq
        cases heq
        exact .factory hfactory hmade

theorem primitive_traced {p : Primitive} :
    Traced g options P (primitive options p) (primitive options p) fun _ => P := by
  refine traced_ite (fun _ => traced_pure fun _ hd => hd) fun _ => ?_
  refine (customScalar?_traced hP).bind fun found => ?_
  cases found with
  | some s =>
    refine traced_get_bind fun d hd => ?_
    refine traced_ite (fun _ => ?_) fun _ => traced_pure fun t ht => ht ▸ hd
    refine ((claim_traced hP).strengthen fun t (ht : t = d) => ht ▸ hd).bind fun _ => ?_
    exact traced_pure fun _ hd => hd
  | none =>
    cases builtIn? p with
    | some b => exact traced_pure fun _ hd => hd
    | none => exact fail_traced hP

/-! ### Uses of types -/

section Step

variable {visit visit' : Nat → Mode → Synth SchemaType}
  (hvisit : VisitsTraced g options P visit visit')
  {owner : String}

include hvisit

theorem typeOf_traced (mode : Mode) (r : TypeRef) :
    Traced g options P (typeOf options visit mode r) (typeOf options visit' mode r) fun _ => P := by
  induction r with
  | primitive p => exact primitive_traced hP
  | array element ih => exact ih.bind fun _ => traced_pure fun _ hd => hd
  | untypedArray => exact fail_traced hP
  | date => exact (claim_traced hP).bind fun _ => traced_pure fun _ hd => hd
  | node slot => exact hvisit slot mode
  | foreign text => exact fail_traced hP

omit hvisit in
theorem fieldName_traced {m : Member} :
    Traced g options P (fieldName m owner) (fieldName m owner) fun _ => P :=
  traced_ite (fun _ => traced_pure fun _ hd => hd) fun _ => fail_traced hP

omit hP hvisit in
theorem gather_traced {key : α → String} {make make' : Member → Synth α}
    (h : ∀ m, Traced g options P (make m) (make' m) fun _ => P) (ms : List Member) (acc : List α) :
    Traced g options P (gather key make ms acc) (gather key make' ms acc) fun _ => P := by
  induction ms generalizing acc with
  | nil => exact traced_pure fun _ hd => hd
  | cons m rest ih => exact traced_ite (fun _ => ih acc) fun _ => (h m).bind fun x => ih _

theorem inputValues_traced (ms : List Member) (acc : List InputValue) :
    Traced g options P (inputValues options visit owner ms acc)
      (inputValues options visit' owner ms acc) fun _ => P := by
  rw [inputValues_eq, inputValues_eq]
  refine gather_traced (fun m => ?_) ms acc
  refine (fieldName_traced hP).bind fun _ => (typeOf_traced hP hvisit .input m.type).bind fun _ => ?_
  exact traced_pure fun _ hd => hd

theorem outputField_traced (m : Member) :
    Traced g options P (outputField g options visit owner m) (outputField g options visit' owner m)
      fun _ => P := by
  refine (typeOf_traced hP hvisit .output m.type).bind fun _ => ?_
  cases m.arguments with
  | none => exact Traced.bind (traced_pure fun _ hd => hd) fun _ => traced_pure fun _ hd => hd
  | some bag =>
    exact (inputValues_traced hP hvisit (g.membersAt bag) []).bind fun _ => traced_pure fun _ hd => hd

theorem outputFields_traced (ms : List Member) (acc : List Field) :
    Traced g options P (outputFields g options visit owner ms acc)
      (outputFields g options visit' owner ms acc) fun _ => P := by
  rw [outputFields_eq, outputFields_eq]
  exact gather_traced (fun m => (fieldName_traced hP).bind fun _ => outputField_traced hP hvisit m)
    ms acc

theorem unionMember_traced (r : TypeRef) :
    Traced g options P (unionMember g options visit label r) (unionMember g options visit' label r)
      fun _ => P := by
  refine (typeOf_traced hP hvisit .output r).bind fun t => ?_
  cases t with
  | named n =>
    refine traced_get_bind fun d hd => ?_
    refine traced_ite (fun _ => traced_pure fun t ht => ht ▸ hd) fun _ => ?_
    exact (fail_traced hP).strengthen fun t ht => ht ▸ hd
  | list | nonNull => exact fail_traced hP

theorem unionMembers_traced (alternatives : List TypeRef) :
    Traced g options P (unionMembers g options visit label alternatives)
      (unionMembers g options visit' label alternatives) fun _ => P :=
  Coupled.mapM fun r _ => unionMember_traced hP hvisit r

end Step

theorem enumValues_traced (members : List TypeRef) (acc : List String) :
    Traced g options P (enumValues g label members acc) (enumValues g label members acc)
      fun _ => P := by
  induction members generalizing acc with
  | nil => exact traced_pure fun _ hd => hd
  | cons r rest ih =>
    unfold enumValues
    split
    · exact fail_traced hP
    · exact traced_ite (fun _ => fail_traced hP) fun _ => ih _

/-! ### Names -/

theorem inlineName_traced (location : String) (doc : Option String) {ms : List Member}
    {tag : String} : Traced g options P (inlineName ms tag mode) (inlineName ms tag mode)
      fun n d => P d ∧ IsNameOf mode (.inlineRecord location doc ms) n := by
  unfold inlineName
  rw [typenameOf_eq]
  cases hfirst : firstTypename? ms with
  | some text => exact traced_pure fun _ hd => ⟨hd, .inl (by rw [ownName?, hfirst]; rfl)⟩
  | none =>
    refine (invent_traced hP).bind fun n => ?_
    refine Traced.bind (Q := fun _ d => P d ∧ IsNameOf mode (.inlineRecord location doc ms) n) ?_
      fun _ => traced_pure fun _ hd => hd
    refine traced_modify fun d hd => ?_
    obtain ⟨hd, k, hk, hn⟩ := hd
    exact ⟨hP.congr hd rfl rfl, .inr ⟨k, by rw [ownName?, hfirst]; rfl, hk, hn⟩⟩

end Kept

/-- What names are made of: letters and digits, and an underscore. -/
theorem isName_append {start more : String} (h : isName start = true)
    (hmore : more.toList.all isNamePart = true) : isName (start ++ more) = true := by
  unfold isName at h ⊢
  rw [String.toList_append]
  cases hstart : start.toList with
  | nil => simp [hstart] at h
  | cons c rest =>
    simp only [hstart, Bool.and_eq_true] at h
    simp only [List.cons_append, List.all_append, Bool.and_eq_true]
    exact ⟨h.1, h.2, hmore⟩

/-- Invented names are names. -/
theorem IsNumbered.isName {s : Shape} {n : String} {k : Nat} (h : IsNumbered mode s n k) :
    isName n = true := by
  obtain ⟨-, -, rfl⟩ := h
  refine isName_append (by cases s <;> cases mode <;> simp only [stem] <;> decide) ?_
  rw [List.all_eq_true]
  intro c hc
  have hdigit : c.isDigit = true :=
    Nat.isDigit_of_mem_toDigits (by decide) (by decide) (Nat.toList_repr ▸ hc)
  simp [isNamePart, Char.isAlphanum, hdigit]

/-- Where a name of a shape is refused, it is one that the shape has by itself. -/
theorem IsNameOf.refused {s : Shape} {n : String} {f : NameFault} (h : IsNameOf mode s n)
    (hs : g.shapeAt? slot = some s) (hcheck : checkName n = .error f) : Refused g options f := by
  rcases h with hown | ⟨k, hk⟩
  · exact .shape hs hown hcheck
  · rw [(checkName_eq_ok_iff n).mpr hk.isName] at hcheck
    cases hcheck

/-! ### Slots -/

section Make

variable {visit visit' : Nat → Mode → Synth SchemaType} {s : Shape} {n : String}
  {name doc : Option String} {alternatives : List TypeRef}

/-- With its name, a record has become something before its members are visited. -/
theorem recordType_traced {members : List Member} (hs : g.shapeAt? slot = some s)
    (hmodeless : isModeless s = false) (hname : IsNameOf mode s n)
    (hvisit : VisitsTraced g options (Orderly g idle (count + 1)) visit visit') :
    Traced g options (Making g slot mode count)
      (recordType g options visit slot mode n doc members label)
      (recordType g options visit' slot mode n doc members label)
      fun _ => Orderly g idle (count + 1) := by
  have hnoted : ∀ d, Making g slot mode count d →
      Orderly g idle (count + 1) (noted d slot [mode] n) :=
    fun d hd => orderly_noted_one hd hs hmodeless
  have hkept : IsKept g (Orderly g idle (count + 1)) := Orderly.isKept
  refine (named_traced Making.isKept fun f hf => hname.refused hs hf).bind fun _ => ?_
  cases mode with
  | input =>
    refine (claim_traced Making.isKept).bind fun _ => (note_traced hnoted).bind fun _ => ?_
    refine (inputValues_traced hkept hvisit members []).bind fun fields => ?_
    refine traced_ite (fun _ => ?_) fun _ => define_traced hkept
    exact (fail_traced hkept).bind fun _ => define_traced hkept
  | output =>
    refine (claim_traced Making.isKept).bind fun _ => (note_traced hnoted).bind fun _ => ?_
    refine (outputFields_traced hkept hvisit members []).bind fun fields => ?_
    refine traced_ite (fun _ => ?_) fun _ => define_traced hkept
    exact (fail_traced hkept).bind fun _ => define_traced hkept

/-- A shape that is the same in both modes becomes something in both. -/
theorem note_modeless_traced {t : SchemaType} (hs : g.shapeAt? slot = some s)
    (hmodeless : isModeless s = true) : Traced g options (Making g slot mode count)
      (do note slot [.input, .output] n; return t) (do note slot [.input, .output] n; return t)
      fun _ => Orderly g idle (count + 1) := by
  refine Traced.bind (note_traced fun d hd => ?_) fun _ => traced_pure fun _ hd => hd
  exact orderly_noted_both hd hs hmodeless

theorem textScalar_traced (hs : g.shapeAt? slot = some (.union name doc alternatives))
    (htexts : isTexts alternatives = true) : Traced g options (Making g slot mode count)
      (textScalar slot name doc (alternatives.filterMap TypeRef.text?) label)
      (textScalar slot name doc (alternatives.filterMap TypeRef.text?) label)
      fun _ => Orderly g idle (count + 1) := by
  have hkept : IsKept g (Making g slot mode count) := Making.isKept
  refine traced_get_bind fun d hd => ?_
  dsimp only
  cases (if name.isNone = true then d.texts.lookup (alternatives.filterMap TypeRef.text?)
    else none) with
  | some made => exact (note_modeless_traced hs htexts).strengthen fun t (ht : t = d) => ht ▸ hd
  | none =>
    refine Traced.strengthen ?_ fun t (ht : t = d) => ht ▸ hd
    refine (named_traced hkept fun f hf => ?_).bind fun _ => (claim_traced hkept).bind fun _ => ?_
    · have hown : ownName? mode (.union name doc alternatives) = some
          ((givenName name).getD (derivedName (alternatives.filterMap TypeRef.text?))) := by
        rw [ownName?, if_pos htexts]
      exact .shape hs hown hf
    · refine traced_ite (fun _ => ?_) fun _ => note_modeless_traced hs htexts
      exact Traced.bind (traced_modify fun _ hd => hkept.congr hd rfl rfl) fun _ =>
        note_modeless_traced hs htexts

theorem enumType_traced {members : List TypeRef}
    (hs : g.shapeAt? slot = some (.enumeration n doc members)) :
    Traced g options (Making g slot mode count) (enumType g slot n doc members label)
      (enumType g slot n doc members label) fun _ => Orderly g idle (count + 1) := by
  have hkept : IsKept g (Making g slot mode count) := Making.isKept
  refine (enumValues_traced hkept members []).bind fun values => ?_
  have hown : ownName? mode (.enumeration n doc members) = some n := rfl
  refine (named_traced hkept fun f hf => .shape hs hown hf).bind fun _ => ?_
  exact (claim_traced hkept).bind fun _ => note_modeless_traced hs rfl

/-- With its name, a union has become something before its alternatives are visited. -/
theorem objectUnion_traced (hs : g.shapeAt? slot = some (.union name doc alternatives))
    (htexts : isTexts alternatives = false)
    (hvisit : VisitsTraced g options (Orderly g idle (count + 1)) visit visit') :
    Traced g options (Making g slot .output count)
      (objectUnion g options visit slot name doc alternatives label)
      (objectUnion g options visit' slot name doc alternatives label)
      fun _ => Orderly g idle (count + 1) := by
  have hkept : IsKept g (Orderly g idle (count + 1)) := Orderly.isKept
  unfold objectUnion
  extract_lets rest rest'
  have hrest : ∀ n, IsNameOf .output (.union name doc alternatives) n →
      Traced g options (Making g slot .output count) (rest n) (rest' n)
        fun _ => Orderly g idle (count + 1) := by
    intro n hname
    refine (named_traced Making.isKept fun f hf => hname.refused hs hf).bind fun _ => ?_
    refine (claim_traced Making.isKept).bind fun _ => (note_traced fun d hd => ?_).bind fun _ =>
      (unionMembers_traced hkept hvisit alternatives).bind fun _ => define_traced hkept
    exact orderly_noted_one hd hs htexts
  cases hname : givenName name with
  | some n => exact hrest n (.inl (by rw [ownName?, if_neg (by simp [htexts]), hname]))
  | none =>
    refine (invent_traced Making.isKept).bind fun n => traced_of_imp fun hn => hrest n (.inr ?_)
    obtain ⟨k, hk, hn⟩ := hn
    exact ⟨k, by rw [ownName?, if_neg (by simp [htexts]), hname], hk, hn⟩

/-- A slot that is being made becomes something, or the run fails. -/
theorem makeType_traced {d : Descriptor} (hd : g[slot]? = some d)
    (hvisit : VisitsTraced g options (Orderly g idle (count + 1)) visit visit') :
    Traced g options (Making g slot mode count) (makeType g options visit slot mode d)
      (makeType g options visit' slot mode d) fun _ => Orderly g idle (count + 1) := by
  have hs : g.shapeAt? slot = some d.shape := by rw [Graph.shapeAt?, hd]; rfl
  unfold makeType
  split
  · next name doc members hshape =>
    rw [hshape] at hs
    exact recordType_traced hs rfl (.inl rfl) hvisit
  · next location doc members hshape =>
    rw [hshape] at hs
    exact (inlineName_traced Making.isKept location doc).bind fun n =>
      traced_of_imp fun hname => recordType_traced hs rfl hname hvisit
  · next name doc alternatives hshape =>
    rw [hshape] at hs
    refine coupled_ite (fun htexts => textScalar_traced hs htexts) fun htexts => ?_
    cases mode with
    | input => exact fail_traced Making.isKept
    | output =>
      refine traced_ite (fun _ => fail_traced Making.isKept) fun _ => ?_
      exact objectUnion_traced hs (Bool.eq_false_iff.mpr htexts) hvisit
  · next name doc members hshape =>
    rw [hshape] at hs
    exact enumType_traced hs

end Make

/-- **A visit** with enough depth below it for all that has not become anything yet. -/
theorem visit_traced {depth depth' : Nat} (hle : depth ≤ depth')
    (hdepth : 2 * g.length < depth + count) :
    VisitsTraced g options (Orderly g idle count) (visit g options depth)
      (visit g options depth') := by
  induction depth generalizing depth' count with
  | zero =>
    intro slot mode d hd
    have hcount := hd.count
    have hlength := length_le_of_inside hd.nodup hd.inside
    omega
  | succ depth ih =>
    obtain ⟨depth', rfl⟩ := Nat.exists_eq_add_of_le' (Nat.le_trans (Nat.succ_pos depth) hle)
    have hvisit : VisitsTraced g options (Orderly g idle (count + 1)) (visit g options depth)
        (visit g options depth') :=
      ih (by omega) (by omega)
    intro slot mode
    refine traced_get_bind fun d hd => ?_
    cases hat : d.made.lookup (slot, mode) with
    | some n =>
      refine ((record_traced Orderly.isKept).strengthen fun t ht => ?_).bind fun _ =>
        traced_pure fun _ hd => hd
      exact ht ▸ hd
    | none =>
      cases hslot : g[slot]? with
      | some e =>
        have hstart := hd.start (List.getElem?_eq_some_iff.mp hslot).1 hat
        refine Traced.bind (traced_modify fun t ht => ht ▸ hstart) fun _ => ?_
        exact (makeType_traced hslot hvisit).mono (fun _ ht => ht) fun _ _ ht => ht.of_succ
      | none => exact (fail_traced Orderly.isKept).strengthen fun t ht => ht ▸ hd

/-! ### Roots -/

/-- Finding the roots fails in no other way than because of a descriptor. -/
theorem findRoots_traced {P : Draft → Prop} (hP : IsKept g P) (listed : List TypeRef)
    (roots : Roots) :
    Traced g options P (findRoots g listed roots) (findRoots g listed roots) fun _ => P := by
  induction listed generalizing roots with
  | nil => exact traced_pure fun _ hd => hd
  | cons r rest ih =>
    unfold findRoots
    split
    · refine traced_ite (fun _ => traced_ite (fun _ => fail_traced hP) fun _ => ih _) fun _ => ?_
      exact traced_ite (fun _ => traced_ite (fun _ => fail_traced hP) fun _ => ih _) fun _ => ih _
    · exact ih _

theorem rootTypeBy_traced {P : Draft → Prop} (hP : IsKept g P)
    {visit visit' : Nat → Mode → Synth SchemaType}
    (hvisit : VisitsTraced g options P visit visit')
    (name : String) (slot : Option Nat) :
    Traced g options P (rootTypeBy visit name slot) (rootTypeBy visit' name slot) fun _ => P := by
  cases slot with
  | none => exact traced_pure fun _ hd => hd
  | some slot =>
    refine (record_traced hP).bind fun _ => (hvisit slot .output).bind fun _ => ?_
    exact traced_pure fun _ hd => hd

theorem runBy_traced {P : Draft → Prop} (hP : IsKept g P)
    {visit visit' : Nat → Mode → Synth SchemaType}
    (hvisit : VisitsTraced g options P visit visit') :
    Traced g options P (runBy visit g listed) (runBy visit' g listed) fun _ => P := by
  refine (findRoots_traced hP listed _).bind fun roots => ?_
  extract_lets rest rest'
  have hrest : Traced g options P (rest ⟨⟩) (rest' ⟨⟩) fun _ => P := by
    refine (rootTypeBy_traced hP hvisit _ _).bind fun query => ?_
    refine (rootTypeBy_traced hP hvisit _ _).bind fun mutation => traced_get_bind fun d hd => ?_
    refine ((record_traced hP).strengthen fun t ht => ?_).bind fun _ =>
      traced_pure fun _ hd => hd
    exact ht ▸ hd
  exact traced_ite (fun _ => (fail_traced hP).bind fun _ => hrest) fun _ => hrest

/-- **The runs**, whatever the larger bound is. -/
theorem synthesis_traced (g : Graph) (listed : List TypeRef) (options : CompileOptions)
    {depth : Nat} (hdepth : depthBound g ≤ depth) :
    ∃ outcome d, synthesis g listed options = (outcome, d) ∧
      synthesisWithin depth g listed options = (outcome, d) ∧
      EndsIn (fun _ => Orderly g idle 0 d) (Failed g options · d) outcome := by
  have hvisit : VisitsTraced g options (Orderly g idle 0)
      (visit g options (depthBound g)) (visit g options depth) :=
    visit_traced hdepth (by unfold depthBound; omega)
  exact runBy_traced Orderly.isKept hvisit _ Orderly.empty

/-- **Synthesis ends.** There is an outcome, a schema or what is wrong with a descriptor or a name,
that synthesis has with its own bound on nested visits and with any larger one, so the bound is not
what ends it. And nothing is made twice: whatever the outcome is, the type of each slot was started
once at most in each mode, and that of each enumeration and each union of texts in one mode only. -/
theorem synthesis_ends (g : Graph) (listed : List TypeRef) (options : CompileOptions) :
    ∃ outcome d, outcome ≠ .error .endless ∧
      synthesis g listed options = (outcome, d) ∧
      (∀ depth, depthBound g ≤ depth →
        synthesisWithin depth g listed options = (outcome, d)) ∧
      d.starts.Nodup ∧ d.starts.length ≤ 2 * g.length ∧
      ∀ slot s, g.shapeAt? slot = some s → isModeless s = true →
        (slot, .input) ∈ d.starts → (slot, .output) ∉ d.starts := by
  obtain ⟨outcome, d, hrun, -, hend⟩ := synthesis_traced g listed options (Nat.le_refl _)
  have htidy : Tidy g d.latestStarts := by
    cases outcome with
    | ok schema => exact hend.tidy
    | error e => exact hend.tidy
  refine ⟨outcome, d, ?_, hrun, fun depth hdepth => ?_, List.nodup_reverse.mpr htidy.nodup,
    ?_, fun slot s hs hmodeless hinput houtput => ?_⟩
  · rintro rfl
    exact hend.ends rfl
  · obtain ⟨outcome', d', hrun', hwithin, -⟩ := synthesis_traced g listed options hdepth
    cases hrun.symm.trans hrun'
    exact hwithin
  · rw [Draft.starts, List.length_reverse]
    exact length_le_of_inside htidy.nodup htidy.inside
  · exact htidy.modeless hs hmodeless (List.mem_reverse.mp hinput) (List.mem_reverse.mp houtput)

/-- The elements refer to themselves and are used twice, and yet they are made once. -/
example : (synthesis sampleGraph [.node 0] .standard).2.starts = [(0, .output), (1, .output)] := by
  decide +kernel

end Synthesis

end DeclaredSchema
