import DeclaredSchema.Declaration.OfTokens

/-!
# Numbers that cannot be read

A reader refuses what does not fit its grammar, and that is a syntax error with a place. One thing
fails in another way: a run of digits that is scanned as a number and is none. Whatever reader it
is that fails so, there is a token among those that it was given that is such a run.

Readers are put together from readers, each with the tokens that the one before it has left, so it
has to be said of each of them as well that it leaves some of the tokens that it was given.

## Main definitions

* `IsUnread` — a token is scanned as a number and is none
* `StaysIn` — what a reader leaves, and what it cannot read, is among its tokens

## Main results

* `readers_stayIn` — the readers with a bound on nested calls
* `isUnread_of_parse` — where a file has a number that cannot be read
-/

namespace DeclaredSchema

namespace OfTokens

/-- The token is scanned as a number, and cannot be read as one. -/
def IsUnread (f : NumeralFault) (t : Token) : Prop :=
  (t.kind = .integer ∨ t.kind = .float) ∧ numberValue t = .error (.numeral f)

/-- The tokens that are left are the last ones of `ts`, and a number that cannot be read is one of
`ts`. -/
def StaysIn {α : Type} (left : α → List Token) (ts : List Token) : Outcome α → Prop
  | .ok a => left a <:+ ts
  | .error (.numeral f) => ∃ t ∈ ts, IsUnread f t
  | .error _ => True

variable {α β : Type} {left : α → List Token} {left' : β → List Token} {ts us : List Token}
  {x y : Outcome α} {n : Nat}

theorem StaysIn.of_suffix (h : StaysIn left us x) (hsuffix : us <:+ ts) : StaysIn left ts x := by
  match x, h with
  | .ok a, h => exact h.trans hsuffix
  | .error (.numeral f), ⟨t, ht, hunread⟩ => exact ⟨t, hsuffix.subset ht, hunread⟩
  | .error (.scan _), _ | .error (.parse _), _ => trivial

/-- What is read behind the first token. -/
theorem StaysIn.of_tail (h : StaysIn left ts.tail x) : StaysIn left ts x :=
  h.of_suffix (List.tail_suffix ts)

theorem StaysIn.bind {f : α → Outcome β} (hx : StaysIn left ts x)
    (hf : ∀ a, StaysIn left' (left a) (f a)) : StaysIn left' ts (x >>= f) := by
  match x, hx with
  | .ok a, hx => exact (hf a).of_suffix hx
  | .error (.numeral f), hx => exact hx
  | .error (.scan _), _ | .error (.parse _), _ => trivial

theorem StaysIn.map {f : α → β} (hx : StaysIn left ts x) (hf : ∀ a, left' (f a) <:+ left a) :
    StaysIn left' ts (x.map f) := by
  match x, hx with
  | .ok a, hx => exact (hf a).trans hx
  | .error (.numeral f), hx => exact hx
  | .error (.scan _), _ | .error (.parse _), _ => trivial

theorem staysIn_ite {c : Prop} [Decidable c] (hx : c → StaysIn left ts x)
    (hy : ¬c → StaysIn left ts y) : StaysIn left ts (if c then x else y) := by
  by_cases hc : c
  · rw [if_pos hc]
    exact hx hc
  · rw [if_neg hc]
    exact hy hc

theorem staysIn_ok {a : α} (h : left a <:+ ts) : StaysIn left ts (.ok a) := h

/-- A reader that is done leaves the tokens that are left. -/
theorem staysIn_done {a : α} : StaysIn left (left a) (.ok a) := List.suffix_refl _

theorem staysIn_refuse {fault : String → ParseFault} : StaysIn left ts (refuse us fault) := trivial

theorem staysIn_unsupported {what : Unsupported} : StaysIn left ts (unsupported what us) := trivial

/-! ### Single tokens -/

variable {kinds : List TokenKind} {closing : Symbol}

theorem expect_staysIn : StaysIn Prod.snd ts (expect kinds ts) :=
  staysIn_ite (fun _ => List.tail_suffix ts) fun _ => staysIn_refuse

theorem expectName_staysIn : StaysIn Prod.snd ts (expectName ts) :=
  staysIn_ite (fun _ => List.tail_suffix ts) fun _ => staysIn_refuse

theorem accept_suffix (mark : Symbol) (ts : List Token) : (accept mark ts).2 <:+ ts := by
  unfold accept
  split
  · exact List.tail_suffix ts
  · exact List.suffix_refl ts

theorem separator_staysIn : StaysIn id ts (separator closing ts) :=
  staysIn_ite (fun _ => List.suffix_refl ts) fun _ => expect_staysIn.map fun _ => List.suffix_refl _

/-! ### Names and numbers -/

theorem qualifiers_staysIn (ts : List Token) : StaysIn Prod.snd ts (qualifiers ts) := by
  induction ts using qualifiers.induct with
  | case1 dot name ts hdot hname ih =>
    rw [qualifiers, if_pos hdot, if_pos hname]
    exact StaysIn.of_tail (StaysIn.of_tail (ih.bind fun _ => staysIn_done))
  | case2 dot name ts hdot hname =>
    rw [qualifiers, if_pos hdot, if_neg hname]
    exact staysIn_refuse
  | case3 dot name ts hdot =>
    rw [qualifiers, if_neg hdot]
    exact staysIn_done
  | case4 ts hts | case5 ts hts =>
    unfold qualifiers
    split
    · exact absurd rfl (hts _ _ _)
    · exact staysIn_ite (fun _ => staysIn_refuse) fun _ => staysIn_done

theorem qualifiedName_staysIn : StaysIn Prod.snd ts (qualifiedName ts) :=
  expect_staysIn.bind fun _ => (qualifiers_staysIn _).bind fun _ => staysIn_done

/-- What can be wrong with a number is only that it cannot be read. -/
theorem numberValue_cases (t : Token) :
    (∃ v, numberValue t = .ok v) ∨ ∃ f, numberValue t = .error (.numeral f) := by
  unfold numberValue
  split <;> split
  · exact .inl ⟨_, rfl⟩
  · exact .inr ⟨_, rfl⟩
  · exact .inl ⟨_, rfl⟩
  · exact .inr ⟨_, rfl⟩

/-- A number is read from the token behind its sign. -/
theorem number_staysIn (ts : List Token) : StaysIn Prod.snd ts (number ts) := by
  refine StaysIn.of_suffix ?_ (accept_suffix .minus ts)
  unfold number
  generalize accept .minus ts = signed
  obtain ⟨negative, us⟩ := signed
  simp only [expect]
  split
  · next hkind =>
    cases us with
    | nil => cases hkind
    | cons t us =>
      have hnumber : t.kind = .integer ∨ t.kind = .float := by simpa [here] using hkind
      rcases numberValue_cases t with ⟨v, hv⟩ | ⟨f, hf⟩
      · show StaysIn Prod.snd (t :: us) (numberValue t >>= _)
        rw [hv]
        exact staysIn_ok (List.suffix_cons t us)
      · show StaysIn Prod.snd (t :: us) (numberValue t >>= _)
        rw [hf]
        exact ⟨t, List.mem_cons_self .., hnumber, hf⟩
  · exact staysIn_refuse

/-! ### Types, members and parameters -/

theorem arraySuffixes_staysIn (e : TypeExpr) (ts : List Token) :
    StaysIn Prod.snd ts (arraySuffixes e ts) := by
  induction e, ts using arraySuffixes.induct with
  | case1 element opening closing ts hopen hclose ih =>
    rw [arraySuffixes, if_pos hopen, if_pos hclose]
    exact StaysIn.of_tail (StaysIn.of_tail ih)
  | case2 element opening closing ts hopen hclose =>
    rw [arraySuffixes, if_pos hopen, if_neg hclose]
    exact staysIn_unsupported
  | case3 element opening closing ts hopen =>
    rw [arraySuffixes, if_neg hopen]
    exact staysIn_done
  | case4 element ts hts | case5 element ts hts =>
    unfold arraySuffixes
    split
    · exact absurd rfl (hts _ _ _)
    · exact staysIn_ite (fun _ => staysIn_unsupported) fun _ => staysIn_done

theorem memberName_staysIn : StaysIn Prod.snd ts (memberName ts) := by
  unfold memberName
  extract_lets modified us
  have hus : us <:+ ts := by
    unfold us
    split
    · exact List.tail_suffix ts
    · exact List.suffix_refl ts
  refine StaysIn.of_suffix ?_ hus
  refine staysIn_ite (fun _ => staysIn_unsupported) fun _ => ?_
  refine staysIn_ite (fun _ => staysIn_unsupported) fun _ => ?_
  refine staysIn_ite (fun _ => staysIn_ok (List.tail_suffix us)) fun _ => ?_
  exact expectName_staysIn.bind fun _ => staysIn_done

/-- The readers with the bound `n` on nested calls stay within their tokens. -/
structure ReadersStayIn (n : Nat) : Prop where
  type : ∀ ts, StaysIn Prod.snd ts (typeExpr n ts)
  alternatives : ∀ ts, StaysIn Prod.snd ts (OfTokens.alternatives n ts)
  suffixed : ∀ ts, StaysIn Prod.snd ts (suffixedType n ts)
  primary : ∀ ts, StaysIn Prod.snd ts (primaryType n ts)
  arguments : ∀ ts, StaysIn Prod.snd ts (typeArguments n ts)
  furtherArguments : ∀ ts, StaysIn Prod.snd ts (OfTokens.furtherArguments n ts)
  body : ∀ ts, StaysIn Prod.snd ts (objectBody n ts)
  members : ∀ ts, StaysIn Prod.snd ts (memberList n ts)
  member : ∀ ts, StaysIn Prod.snd ts (OfTokens.member n ts)
  parameters : ∀ ts, StaysIn Prod.snd ts (parameterList n ts)
  entries : ∀ ts, StaysIn Prod.snd ts (parameterEntries n ts)

namespace ReadersStayIn

theorem zero : ReadersStayIn 0 where
  type _ := trivial
  alternatives _ := trivial
  suffixed _ := trivial
  primary _ := trivial
  arguments _ := trivial
  furtherArguments _ := trivial
  body _ := trivial
  members _ := trivial
  member _ := trivial
  parameters _ := trivial
  entries _ := trivial

variable (ih : ReadersStayIn n) (ts : List Token)

include ih

theorem typeExpr_succ : StaysIn Prod.snd ts (typeExpr (n + 1) ts) := by
  refine StaysIn.of_suffix ((ih.suffixed _).bind fun _ => (ih.alternatives _).bind fun _ => ?_)
    (accept_suffix .pipe ts)
  exact staysIn_ite (fun _ => staysIn_unsupported) fun _ => staysIn_done

theorem alternatives_succ : StaysIn Prod.snd ts (OfTokens.alternatives (n + 1) ts) := by
  refine staysIn_ite (fun _ => StaysIn.of_tail ?_) fun _ => staysIn_done
  exact (ih.suffixed _).bind fun _ => (ih.alternatives _).bind fun _ =>
    staysIn_done

theorem suffixedType_succ : StaysIn Prod.snd ts (suffixedType (n + 1) ts) :=
  (ih.primary ts).bind fun _ => arraySuffixes_staysIn _ _

theorem primaryType_succ : StaysIn Prod.snd ts (primaryType (n + 1) ts) := by
  have hword : ∀ e : TypeExpr, StaysIn Prod.snd ts (.ok (e, ts.tail)) := fun e =>
    staysIn_ok (List.tail_suffix ts)
  unfold primaryType
  dsimp only
  split
  · exact (ih.body ts).bind fun _ => staysIn_done
  · refine staysIn_ite (fun _ => ?_) fun _ => StaysIn.of_tail ?_
    · refine (ih.parameters ts).bind fun _ => expect_staysIn.bind fun _ => (ih.type _).bind fun _ => ?_
      exact staysIn_done
    · exact (ih.type _).bind fun _ => expect_staysIn.bind fun _ => staysIn_done
  · exact staysIn_unsupported
  · exact hword _
  -- integers, floats, and the sign in front of them
  iterate 3
    · exact (number_staysIn ts).bind fun _ => staysIn_done
  iterate 4
    · exact hword _
  · split
    · exact hword _
    · refine staysIn_ite (fun _ => staysIn_unsupported) fun _ => ?_
      exact qualifiedName_staysIn.bind fun _ => (ih.arguments _).bind fun _ =>
        staysIn_done
  · exact staysIn_refuse

theorem typeArguments_succ : StaysIn Prod.snd ts (typeArguments (n + 1) ts) := by
  refine staysIn_ite (fun _ => StaysIn.of_tail ?_) fun _ => staysIn_done
  exact (ih.type _).bind fun _ => (ih.furtherArguments _).bind fun _ => expect_staysIn.bind fun _ =>
    staysIn_done

theorem furtherArguments_succ : StaysIn Prod.snd ts (OfTokens.furtherArguments (n + 1) ts) := by
  refine staysIn_ite (fun _ => StaysIn.of_tail ?_) fun _ => staysIn_done
  exact (ih.type _).bind fun _ => (ih.furtherArguments _).bind fun _ =>
    staysIn_done

theorem objectBody_succ : StaysIn Prod.snd ts (objectBody (n + 1) ts) :=
  expect_staysIn.bind fun _ => (ih.members _).bind fun _ => expect_staysIn.bind fun _ =>
    staysIn_done

theorem memberList_succ : StaysIn Prod.snd ts (memberList (n + 1) ts) := by
  refine staysIn_ite (fun _ => staysIn_done) fun _ => (ih.member ts).bind fun a => ?_
  obtain ⟨first, us⟩ := a
  refine StaysIn.of_suffix ((ih.members _).bind fun _ => staysIn_done) ?_
  split
  · exact List.tail_suffix us
  · exact accept_suffix .comma us

theorem member_succ : StaysIn Prod.snd ts (OfTokens.member (n + 1) ts) := by
  refine memberName_staysIn.bind fun a => ?_
  obtain ⟨⟨modified, name⟩, us⟩ := a
  refine StaysIn.of_suffix ?_ (accept_suffix .question us)
  refine staysIn_ite (fun _ => staysIn_unsupported) fun _ => ?_
  refine staysIn_ite (fun _ => ?_) fun _ => ?_
  · exact (ih.parameters _).bind fun _ => expect_staysIn.bind fun _ => (ih.type _).bind fun _ =>
      staysIn_done
  · exact expect_staysIn.bind fun _ => (ih.type _).bind fun _ => staysIn_done

theorem parameterList_succ : StaysIn Prod.snd ts (parameterList (n + 1) ts) :=
  expect_staysIn.bind fun _ => (ih.entries _).bind fun _ => expect_staysIn.bind fun _ =>
    staysIn_done

theorem parameterEntries_succ : StaysIn Prod.snd ts (parameterEntries (n + 1) ts) := by
  refine staysIn_ite (fun _ => staysIn_done) fun _ => ?_
  refine expectName_staysIn.bind fun a => StaysIn.of_suffix ?_ (accept_suffix .question a.2)
  refine expect_staysIn.bind fun _ => (ih.type _).bind fun _ => separator_staysIn.bind fun _ => ?_
  exact (ih.entries _).bind fun _ => staysIn_done

theorem succ : ReadersStayIn (n + 1) where
  type := ih.typeExpr_succ
  alternatives := ih.alternatives_succ
  suffixed := ih.suffixedType_succ
  primary := ih.primaryType_succ
  arguments := ih.typeArguments_succ
  furtherArguments := ih.furtherArguments_succ
  body := ih.objectBody_succ
  members := ih.memberList_succ
  member := ih.member_succ
  parameters := ih.parameterList_succ
  entries := ih.parameterEntries_succ

end ReadersStayIn

/-- **The readers with a bound** stay within their tokens, whatever the bound. -/
theorem readers_stayIn (n : Nat) : ReadersStayIn n := by
  induction n with
  | zero => exact .zero
  | succ n ih => exact ih.succ

/-! ### Declarations -/

theorem furtherBases_staysIn (n : Nat) (ts : List Token) :
    StaysIn Prod.snd ts (furtherBases n ts) := by
  induction n generalizing ts with
  | zero => exact staysIn_done
  | succ n ih =>
    refine staysIn_ite (fun _ => StaysIn.of_tail ?_) fun _ => staysIn_done
    exact qualifiedName_staysIn.bind fun _ => (ih _).bind fun _ => staysIn_done

theorem baseNames_staysIn : StaysIn Prod.snd ts (baseNames ts) := by
  refine staysIn_ite (fun _ => StaysIn.of_tail ?_) fun _ => staysIn_done
  refine qualifiedName_staysIn.bind fun _ => (furtherBases_staysIn _ _).bind fun _ => ?_
  exact staysIn_ite (fun _ => staysIn_unsupported) fun _ => staysIn_done

theorem interfaceDeclaration_staysIn {doc : Option String} :
    StaysIn Prod.snd ts (interfaceDeclaration doc ts) := by
  refine expect_staysIn.bind fun _ => expect_staysIn.bind fun _ => ?_
  refine staysIn_ite (fun _ => staysIn_unsupported) fun _ => baseNames_staysIn.bind fun _ => ?_
  exact ((readers_stayIn _).body _).bind fun _ => staysIn_done

theorem aliasDeclaration_staysIn {doc : Option String} :
    StaysIn Prod.snd ts (aliasDeclaration doc ts) := by
  refine expect_staysIn.bind fun _ => expect_staysIn.bind fun _ => ?_
  refine staysIn_ite (fun _ => staysIn_unsupported) fun _ => expect_staysIn.bind fun _ => ?_
  exact ((readers_stayIn _).type _).bind fun _ => staysIn_ok (accept_suffix _ _)

theorem initializer_staysIn : StaysIn Prod.snd ts (initializer ts) := by
  refine staysIn_ite (fun _ => StaysIn.of_tail ?_) fun _ => staysIn_done
  refine staysIn_ite (fun _ => staysIn_ok (List.tail_suffix _)) fun _ => ?_
  exact (number_staysIn _).map fun _ => List.suffix_refl _

theorem enumEntries_staysIn (n : Nat) (ts : List Token) : StaysIn Prod.snd ts (enumEntries n ts) := by
  induction n generalizing ts with
  | zero => exact staysIn_done
  | succ n ih =>
    refine staysIn_ite (fun _ => staysIn_done) fun _ => ?_
    refine staysIn_ite (fun _ => StaysIn.of_tail ?_) fun _ => expectName_staysIn.bind fun _ => ?_
    all_goals
      exact initializer_staysIn.bind fun _ => separator_staysIn.bind fun _ => (ih _).bind fun _ =>
        staysIn_done

theorem enumDeclaration_staysIn {doc : Option String} :
    StaysIn Prod.snd ts (enumDeclaration doc ts) := by
  refine expect_staysIn.bind fun _ => expect_staysIn.bind fun _ => expect_staysIn.bind fun _ => ?_
  exact (enumEntries_staysIn _ _).bind fun _ => expect_staysIn.bind fun _ =>
    staysIn_done

/-! ### Imports -/

theorem importedNames_staysIn (n : Nat) (ts : List Token) :
    StaysIn Prod.snd ts (importedNames n ts) := by
  induction n generalizing ts with
  | zero => exact staysIn_done
  | succ n ih =>
    refine staysIn_ite (fun _ => staysIn_done) fun _ => ?_
    refine expectName_staysIn.bind fun _ => ?_
    refine staysIn_ite (fun _ => StaysIn.of_tail ?_) fun _ => ?_
    · exact expectName_staysIn.bind fun _ => separator_staysIn.bind fun _ => (ih _).bind fun _ =>
        staysIn_done
    · exact separator_staysIn.bind fun _ => (ih _).bind fun _ => staysIn_done

theorem importClause_staysIn : StaysIn Prod.snd ts (importClause ts) := by
  refine staysIn_ite (fun _ => StaysIn.of_tail ?_) fun _ => staysIn_ite (fun _ => StaysIn.of_tail ?_)
    fun _ => expect_staysIn.bind fun _ => staysIn_done
  · exact (importedNames_staysIn _ _).bind fun _ => expect_staysIn.bind fun _ =>
      staysIn_done
  · refine expect_staysIn.bind fun _ => staysIn_ite (fun _ => staysIn_refuse) fun _ => ?_
    exact expect_staysIn.bind fun _ => staysIn_done

theorem importDeclaration_staysIn : StaysIn Prod.snd ts (importDeclaration ts) := by
  refine expect_staysIn.bind fun a => ?_
  obtain ⟨word, us⟩ := a
  refine StaysIn.of_suffix (importClause_staysIn.bind fun _ => expect_staysIn.bind fun _ =>
    expect_staysIn.bind fun _ => staysIn_ok (accept_suffix _ _)) ?_
  split
  · exact List.tail_suffix us
  · exact List.suffix_refl us

/-! ### Files -/

theorem item_staysIn : StaysIn Prod.snd ts (item ts) := by
  unfold item
  extract_lets doc us declared
  have hdeclared : StaysIn Prod.snd us declared := by
    refine staysIn_ite (fun _ => interfaceDeclaration_staysIn) fun _ => ?_
    refine staysIn_ite (fun _ => aliasDeclaration_staysIn) fun _ => ?_
    refine staysIn_ite (fun _ => enumDeclaration_staysIn) fun _ => ?_
    exact staysIn_ite (fun _ => StaysIn.of_tail enumDeclaration_staysIn) fun _ => staysIn_refuse
  refine staysIn_ite (fun _ => staysIn_ok (List.tail_suffix ts)) fun _ => ?_
  refine staysIn_ite (fun _ => importDeclaration_staysIn.map fun _ => List.suffix_refl _) fun _ => ?_
  have hsuffix : us <:+ ts := List.dropWhile_suffix _
  exact StaysIn.of_suffix (hdeclared.map fun _ => List.suffix_refl _) hsuffix

theorem items_staysIn (n : Nat) (ts : List Token) : StaysIn (fun _ => []) ts (items n ts) := by
  induction n generalizing ts with
  | zero => exact List.nil_suffix
  | succ n ih =>
    refine staysIn_ite (fun _ => List.nil_suffix) fun _ => item_staysIn.bind fun _ => ?_
    exact (ih _).bind fun _ => List.nil_suffix

end OfTokens

open OfTokens

/-- **Where a file has a number that cannot be read**, one of its tokens is one. -/
theorem isUnread_of_parse {text : String} {f : NumeralFault}
    (h : SourceUnit.parse text = .error (.numeral f)) :
    ∃ ts t, scan text = .ok ts ∧ t ∈ ts ∧ IsUnread f t := by
  unfold SourceUnit.parse at h
  split at h
  · next ts hscan =>
    have hstays : StaysIn (fun _ => []) ts (SourceUnit.ofTokens ts) :=
      (items_staysIn ts.length ts).bind fun _ => List.nil_suffix
    rw [h] at hstays
    obtain ⟨t, ht, hunread⟩ := hstays
    exact ⟨ts, t, hscan, ht, hunread⟩
  · cases h

end DeclaredSchema
