import DeclaredSchema.Proofs.Declaration.Completeness

/-!
# What is read is derived

Whatever a reader takes, it takes as a phrase of the settled grammar with the meaning that it
returns. Readers go on as long as they can, and this is where function types are settled: behind the
result of a function type there is no suffix and no further alternative.

## Main definitions

* `Ends` — a type does not go on
* `Sound` — the readers with a bound on nested calls take phrases

## Main results

* `sound` — the readers take phrases with every bound
-/

namespace DeclaredSchema

open OfTokens

namespace Grammar

variable {t : Token} {ts us vs rest : List Token} {e : TypeExpr} {es : List TypeExpr} {n : Nat}
  {mark : Symbol} {kind : TokenKind} {kinds : List TokenKind}

/-! ### Single tokens -/

theorem exists_cons_of_kind [hkind : kind.IsInner] (h : (here ts).kind = kind) :
    ∃ t us, ts = t :: us ∧ t.kind = kind := by
  cases ts with
  | nil => exact absurd h.symm hkind.ne_endOfFile
  | cons t us => exact ⟨t, us, rfl, h⟩

theorem exists_cons_of_sees [kind.IsInner] (h : sees kind ts = true) :
    ∃ t us, ts = t :: us ∧ t.kind = kind :=
  exists_cons_of_kind (of_decide_eq_true h)

theorem expect_eq_ok (h : expect kinds ts = .ok (t, us)) (hkinds : .endOfFile ∉ kinds) :
    ts = t :: us ∧ t.kind ∈ kinds := by
  unfold expect at h
  split at h
  · next hmem =>
    have hmem : (here ts).kind ∈ kinds := List.contains_iff_mem.mp hmem
    cases ts with
    | nil => exact absurd hmem hkinds
    | cons t' us' =>
      cases h
      exact ⟨rfl, hmem⟩
  · cases h

theorem expect_kind_eq_ok [hkind : kind.IsInner] (h : expect [kind] ts = .ok (t, us)) :
    ts = t :: us ∧ t.kind = kind := by
  obtain ⟨hts, ht⟩ := expect_eq_ok h fun hmem => hkind.ne_endOfFile (List.mem_singleton.mp hmem).symm
  exact ⟨hts, List.mem_singleton.mp ht⟩

theorem expectMark_eq_ok (h : expectMark mark ts = .ok (t, us)) :
    ts = t :: us ∧ t.kind = .symbol mark :=
  expect_kind_eq_ok h

theorem expectName_eq_ok (h : expectName ts = .ok (t, us)) :
    ts = t :: us ∧ t.kind.isName = true := by
  unfold expectName at h
  split at h
  · next hname =>
    cases ts with
    | nil => cases hname
    | cons t' us' =>
      cases h
      exact ⟨rfl, hname⟩
  · cases h

theorem optionally_accept (mark : Symbol) (ts : List Token) :
    Optionally (.symbol mark) ts (accept mark ts).1 (accept mark ts).2 := by
  unfold accept
  split
  · next h =>
    obtain ⟨t, us, rfl, ht⟩ := exists_cons_of_sees h
    exact .present ht
  · exact .absent

theorem separator_eq_ok (h : separator mark ts = .ok us) :
    us = ts ∧ (here ts).kind = .symbol mark ∨ ∃ t, ts = t :: us ∧ t.kind = .symbol .comma := by
  unfold separator at h
  split at h
  · next hmark =>
    cases h
    exact .inl ⟨rfl, of_decide_eq_true hmark⟩
  · obtain ⟨⟨t, rest⟩, hcomma, rfl⟩ := map_eq_ok.mp h
    obtain ⟨hts, ht⟩ := expectMark_eq_ok hcomma
    exact .inr ⟨t, hts, ht⟩

/-! ### Phrases without types -/

theorem qualifiers_of_read {more : String} (h : qualifiers ts = .ok (more, rest)) :
    Qualifiers ts more rest := by
  induction ts using qualifiers.induct generalizing more with
  | case1 dot name ts hdot hname ih =>
    rw [qualifiers, if_pos hdot, if_pos hname, bind_eq_ok] at h
    obtain ⟨⟨more', rest'⟩, hmore, h⟩ := h
    cases h
    exact .cons hdot hname (ih hmore)
  | case2 dot name ts hdot hname =>
    rw [qualifiers, if_pos hdot, if_neg hname] at h
    cases h
  | case3 dot name ts hdot =>
    rw [qualifiers, if_neg hdot] at h
    cases h
    exact .nil
  | case4 ts hts hdot =>
    unfold qualifiers at h
    split at h
    · exact absurd rfl (hts _ _ _)
    · rw [if_pos hdot] at h
      cases h
  | case5 ts hts hno =>
    unfold qualifiers at h
    split at h
    · exact absurd rfl (hts _ _ _)
    · rw [if_neg hno] at h
      cases h
      exact .nil

theorem qualifiedName_of_read {name : String} (h : qualifiedName ts = .ok (name, rest)) :
    QualifiedName ts name rest := by
  simp only [qualifiedName, bind_eq_ok, Prod.exists] at h
  obtain ⟨head, us, hhead, more, rest', hmore, h⟩ := h
  cases h
  obtain ⟨rfl, hkind⟩ := expect_kind_eq_ok hhead
  exact .mk hkind (qualifiers_of_read hmore)

theorem number_of_read {value : Literal} (h : number ts = .ok (value, rest)) :
    Number ts value rest := by
  simp only [number, bind_eq_ok, Prod.exists] at h
  obtain ⟨t, us, ht, v, hvalue, h⟩ := h
  cases h
  obtain ⟨hts, ht⟩ := expect_eq_ok ht (by decide)
  have hminus := optionally_accept .minus ts
  rw [hts] at hminus
  exact .mk hminus (by simpa using ht) hvalue

theorem suffixes_of_read {e' : TypeExpr} (h : arraySuffixes e ts = .ok (e', rest)) :
    ∃ k, Suffixes ts k rest ∧ e' = arrays k e ∧ seesMark .bracketOpen rest = false := by
  induction e, ts using arraySuffixes.induct with
  | case1 element opening closing ts hopen hclose ih =>
    rw [arraySuffixes, if_pos hopen, if_pos hclose] at h
    obtain ⟨k, hsuffixes, rfl, hrest⟩ := ih h
    exact ⟨k + 1, .cons hopen hclose hsuffixes, rfl, hrest⟩
  | case2 element opening closing ts hopen hclose =>
    rw [arraySuffixes, if_pos hopen, if_neg hclose] at h
    cases h
  | case3 element opening closing ts hopen =>
    rw [arraySuffixes, if_neg hopen] at h
    cases h
    exact ⟨0, .nil, rfl, seesMark_eq_false hopen⟩
  | case4 element ts hts hopen =>
    unfold arraySuffixes at h
    split at h
    · exact absurd rfl (hts _ _ _)
    · rw [if_pos hopen] at h
      cases h
  | case5 element ts hts hno =>
    unfold arraySuffixes at h
    split at h
    · exact absurd rfl (hts _ _ _)
    · rw [if_neg hno] at h
      cases h
      exact ⟨0, .nil, rfl, Bool.eq_false_iff.mpr hno⟩

/-- The name of a member behind its modifier. -/
def bareName (modified : Bool) (ts : List Token) : Outcome ((Bool × Token) × List Token) :=
  if seesMark .bracketOpen ts then unsupported .indexSignature ts
  else if seesMark .parenOpen ts || seesMark .angleOpen ts then unsupported .callSignature ts
  else if sees .string ts || sees .integer ts then return ((modified, here ts), ts.tail)
  else do
    let (name, ts) ← expectName ts
    return ((modified, name), ts)

theorem memberName_eq (ts : List Token) : memberName ts =
    if seesWord .readonlyWord ts && ((kindAt ts 1).isName || kindAt ts 1 = .string) then
      bareName true ts.tail
    else bareName false ts := by
  unfold memberName
  split <;> rename_i h <;> simp only [h] <;> rfl

theorem bareName_eq_ok {modified modified' : Bool} {name : Token}
    (h : bareName modified ts = .ok ((modified', name), rest)) :
    modified' = modified ∧ ts = name :: rest ∧ startsMember name.kind := by
  unfold bareName at h
  split at h
  · cases h
  split at h
  · cases h
  split at h
  · next hliteral =>
    cases h
    rcases Bool.or_eq_true_iff.mp hliteral with hstring | hinteger
    · obtain ⟨t, us, rfl, ht⟩ := exists_cons_of_sees hstring
      exact ⟨rfl, rfl, .inr (.inl ht)⟩
    · obtain ⟨t, us, rfl, ht⟩ := exists_cons_of_sees hinteger
      exact ⟨rfl, rfl, .inr (.inr ht)⟩
  · simp only [bind_eq_ok, Prod.exists] at h
    obtain ⟨t, us, hname, h⟩ := h
    cases h
    obtain ⟨hts, ht⟩ := expectName_eq_ok hname
    exact ⟨rfl, hts, .inl ht⟩

theorem memberName_of_read {modified : Bool} {name : Token}
    (h : memberName ts = .ok ((modified, name), rest)) : MemberName ts (modified, name) rest := by
  rw [memberName_eq] at h
  split at h
  · next hmodified =>
    obtain ⟨hword, hnext⟩ := Bool.and_eq_true_iff.mp hmodified
    obtain ⟨word, us, rfl, hkind⟩ := exists_cons_of_sees hword
    obtain ⟨rfl, hus, -⟩ := bareName_eq_ok h
    rw [List.tail_cons] at hus
    subst hus
    exact .modified hkind ((Bool.or_eq_true_iff.mp hnext).imp_right of_decide_eq_true)
  · obtain ⟨rfl, rfl, hname⟩ := bareName_eq_ok h
    exact .plain hname

theorem separator_separated (ts : List Token) : Separator ts (separated ts) := by
  unfold separated
  split
  · next h =>
    obtain ⟨t, us, rfl, ht⟩ := exists_cons_of_sees h
    exact .mark (.inl ht)
  · have hcomma := optionally_accept .comma ts
    unfold skip
    generalize (accept .comma ts).2 = us at hcomma
    generalize (accept .comma ts).1 = found at hcomma
    cases hcomma with
    | absent => exact .none
    | present h => exact .mark (.inr h)

/-! ### Types, members and parameters -/

/-- Behind a type there is no further alternative and no suffix. -/
def Ends (ts : List Token) : Prop := seesMark .pipe ts = false ∧ seesMark .bracketOpen ts = false

/-- The readers with the bound `n` on nested calls take phrases. -/
structure Sound (n : Nat) : Prop where
  type : ∀ {ts e rest}, typeExpr n ts = .ok (e, rest) → Derives true .type ts e rest ∧ Ends rest
  alternatives : ∀ {ts es rest}, OfTokens.alternatives n ts = .ok (es, rest) →
    Derives true .alternatives ts es rest ∧ seesMark .pipe rest = false ∧
      (seesMark .bracketOpen ts = false → seesMark .bracketOpen rest = false)
  suffixed : ∀ {ts e rest}, suffixedType n ts = .ok (e, rest) → seesMark .bracketOpen rest = false ∧
    (Derives true .suffixed ts e rest ∨ Derives true .arrow ts e rest ∧ seesMark .pipe rest = false)
  primary : ∀ {ts e rest}, primaryType n ts = .ok (e, rest) →
    Derives true .primary ts e rest ∨ Derives true .arrow ts e rest ∧ Ends rest
  arguments : ∀ {ts es rest}, typeArguments n ts = .ok (es, rest) →
    Derives true .arguments ts es rest
  furtherArguments : ∀ {ts es rest}, OfTokens.furtherArguments n ts = .ok (es, rest) →
    Derives true .furtherArguments ts es rest
  body : ∀ {ts ms rest}, objectBody n ts = .ok (ms, rest) → Derives true .body ts ms rest
  members : ∀ {ts ms rest}, memberList n ts = .ok (ms, rest) → Derives true .members ts ms rest
  member : ∀ {ts m rest}, OfTokens.member n ts = .ok (m, rest) → Derives true .member ts m rest
  parameters : ∀ {ts ps rest}, parameterList n ts = .ok (ps, rest) →
    Derives true .parameters ts ps rest
  entries : ∀ {ts ps rest}, parameterEntries n ts = .ok (ps, rest) →
    Derives true .entries ts ps rest

/-- Without a bar, there is no further alternative. -/
theorem alternatives_of_no_pipe (hpipe : seesMark .pipe ts = false)
    (h : OfTokens.alternatives n ts = .ok (es, rest)) : es = [] ∧ rest = ts := by
  cases n with
  | zero => cases h
  | succ n =>
    rw [OfTokens.alternatives, hpipe] at h
    cases h
    exact ⟨rfl, rfl⟩

/-- At the closing mark, there is no further parameter. -/
theorem parameterEntries_of_close {ps : List (Parameter TypeExpr)}
    (hclose : (here ts).kind = .symbol .parenClose)
    (h : parameterEntries n ts = .ok (ps, rest)) : ps = [] ∧ rest = ts := by
  cases n with
  | zero => cases h
  | succ n =>
    rw [parameterEntries_nil hclose] at h
    cases h
    exact ⟨rfl, rfl⟩

namespace Sound

theorem zero : Sound 0 where
  type h := by cases h
  alternatives h := by cases h
  suffixed h := by cases h
  primary h := by cases h
  arguments h := by cases h
  furtherArguments h := by cases h
  body h := by cases h
  members h := by cases h
  member h := by cases h
  parameters h := by cases h
  entries h := by cases h

theorem typeExpr_succ (ih : Sound n) (h : typeExpr (n + 1) ts = .ok (e, rest)) :
    Derives true .type ts e rest ∧ Ends rest := by
  simp only [typeExpr, bind_eq_ok, Prod.exists] at h
  obtain ⟨first, us, hfirst, more, vs, hmore, h⟩ := h
  split at h
  · cases h
  · cases h
    obtain ⟨hbracket, hsuffixed⟩ := ih.suffixed hfirst
    obtain ⟨halternatives, hpipe, hends⟩ := ih.alternatives hmore
    rcases hsuffixed with hsuffixed | ⟨harrow, hno⟩
    · exact ⟨.type (optionally_accept .pipe ts) hsuffixed halternatives, hpipe, hends hbracket⟩
    · obtain ⟨rfl, rfl⟩ := alternatives_of_no_pipe hno hmore
      exact ⟨.onlyArrow rfl (optionally_accept .pipe ts) harrow, hno, hbracket⟩

theorem alternatives_succ (ih : Sound n)
    (h : OfTokens.alternatives (n + 1) ts = .ok (es, rest)) :
    Derives true .alternatives ts es rest ∧ seesMark .pipe rest = false ∧
      (seesMark .bracketOpen ts = false → seesMark .bracketOpen rest = false) := by
  rw [OfTokens.alternatives] at h
  split at h
  · next hpipe =>
    obtain ⟨t, us, rfl, ht⟩ := exists_cons_of_sees hpipe
    simp only [bind_eq_ok, Prod.exists] at h
    obtain ⟨first, us, hfirst, more, vs, hmore, h⟩ := h
    cases h
    obtain ⟨hbracket, hsuffixed⟩ := ih.suffixed hfirst
    obtain ⟨halternatives, hpipe, hends⟩ := ih.alternatives hmore
    refine ⟨?_, hpipe, fun _ => hends hbracket⟩
    rcases hsuffixed with hsuffixed | ⟨harrow, hno⟩
    · exact .alternative ht hsuffixed halternatives
    · obtain ⟨rfl, rfl⟩ := alternatives_of_no_pipe hno hmore
      exact .lastArrow rfl ht harrow
  · next hpipe =>
    cases h
    exact ⟨.noAlternative, Bool.eq_false_iff.mpr hpipe, id⟩

theorem suffixedType_succ (ih : Sound n) (h : suffixedType (n + 1) ts = .ok (e, rest)) :
    seesMark .bracketOpen rest = false ∧ (Derives true .suffixed ts e rest ∨
      Derives true .arrow ts e rest ∧ seesMark .pipe rest = false) := by
  simp only [suffixedType, bind_eq_ok, Prod.exists] at h
  obtain ⟨element, us, helement, h⟩ := h
  obtain ⟨k, hsuffixes, rfl, hbracket⟩ := suffixes_of_read h
  refine ⟨hbracket, ?_⟩
  rcases ih.primary helement with hprimary | ⟨harrow, hpipe, hno⟩
  · exact .inl (.suffixed hprimary hsuffixes)
  · cases hsuffixes with
    | nil => exact .inr ⟨harrow, hpipe⟩
    | cons hopen =>
      rw [seesMark_cons, decide_eq_true hopen] at hno
      cases hno

theorem primaryType_succ (ih : Sound n) (h : primaryType (n + 1) ts = .ok (e, rest)) :
    Derives true .primary ts e rest ∨ Derives true .arrow ts e rest ∧ Ends rest := by
  unfold primaryType at h
  simp only at h
  split at h
  · next hkind =>
    obtain ⟨t, us, rfl, ht⟩ := exists_cons_of_kind hkind
    simp only [bind_eq_ok, Prod.exists] at h
    obtain ⟨ms, us, hms, h⟩ := h
    cases h
    exact .inl (.object (ih.body hms))
  · next hkind =>
    obtain ⟨t, us, rfl, ht⟩ := exists_cons_of_kind hkind
    split at h
    · simp only [bind_eq_ok, Prod.exists] at h
      obtain ⟨ps, us, hps, arrow, vs, harrow, result, ws, hresult, h⟩ := h
      cases h
      obtain ⟨rfl, hmark⟩ := expectMark_eq_ok harrow
      obtain ⟨hresult, hends⟩ := ih.type hresult
      exact .inr ⟨.arrow (ih.parameters hps) hmark hresult, hends⟩
    · simp only [bind_eq_ok, Prod.exists, List.tail_cons] at h
      obtain ⟨inner, us, hinner, closing, vs, hclose, h⟩ := h
      cases h
      obtain ⟨rfl, hmark⟩ := expectMark_eq_ok hclose
      exact .inl (.parens ht (ih.type hinner).1 hmark)
  · cases h
  · next hkind =>
    obtain ⟨t, us, rfl, ht⟩ := exists_cons_of_kind hkind
    cases h
    exact .inl (.string ht)
  -- integers, floats, and the sign in front of them
  iterate 3
    · simp only [bind_eq_ok, Prod.exists] at h
      obtain ⟨value, us, hvalue, h⟩ := h
      cases h
      exact .inl (.number (number_of_read hvalue))
  · next hkind =>
    obtain ⟨t, us, rfl, ht⟩ := exists_cons_of_kind hkind
    cases h
    exact .inl (.truth ht)
  · next hkind =>
    obtain ⟨t, us, rfl, ht⟩ := exists_cons_of_kind hkind
    cases h
    exact .inl (.falsity ht)
  · next hkind =>
    obtain ⟨t, us, rfl, ht⟩ := exists_cons_of_kind hkind
    cases h
    exact .inl (.null ht)
  · next hkind =>
    obtain ⟨t, us, rfl, ht⟩ := exists_cons_of_kind hkind
    cases h
    exact .inl (.undefined ht)
  · next hkind =>
    obtain ⟨t, us, rfl, ht⟩ := exists_cons_of_kind hkind
    split at h
    · next word hword =>
      cases h
      exact .inl (.keyword ht hword)
    · next hword =>
      split at h
      · cases h
      · next hoperator =>
        simp only [bind_eq_ok, Prod.exists] at h
        obtain ⟨name, us, hname, es, vs, hes, h⟩ := h
        cases h
        exact .inl (.reference hword (by simpa using hoperator) (qualifiedName_of_read hname)
          (ih.arguments hes))
  · cases h

theorem typeArguments_succ (ih : Sound n) (h : typeArguments (n + 1) ts = .ok (es, rest)) :
    Derives true .arguments ts es rest := by
  rw [typeArguments] at h
  split at h
  · next hopen =>
    obtain ⟨t, us, rfl, ht⟩ := exists_cons_of_sees hopen
    simp only [bind_eq_ok, Prod.exists] at h
    obtain ⟨first, us, hfirst, more, vs, hmore, closing, ws, hclose, h⟩ := h
    cases h
    obtain ⟨rfl, hmark⟩ := expectMark_eq_ok hclose
    exact .arguments ht (ih.type hfirst).1 (ih.furtherArguments hmore) hmark
  · cases h
    exact .noArguments

theorem furtherArguments_succ (ih : Sound n)
    (h : OfTokens.furtherArguments (n + 1) ts = .ok (es, rest)) :
    Derives true .furtherArguments ts es rest := by
  rw [OfTokens.furtherArguments] at h
  split at h
  · next hcomma =>
    obtain ⟨t, us, rfl, ht⟩ := exists_cons_of_sees hcomma
    simp only [bind_eq_ok, Prod.exists] at h
    obtain ⟨first, us, hfirst, more, vs, hmore, h⟩ := h
    cases h
    exact .argument ht (ih.type hfirst).1 (ih.furtherArguments hmore)
  · cases h
    exact .noArgument

theorem objectBody_succ (ih : Sound n) {ms : List (Property TypeExpr)}
    (h : objectBody (n + 1) ts = .ok (ms, rest)) : Derives true .body ts ms rest := by
  simp only [objectBody, bind_eq_ok, Prod.exists] at h
  obtain ⟨opening, us, hopen, ms, vs, hms, closing, ws, hclose, h⟩ := h
  cases h
  obtain ⟨rfl, hmark⟩ := expectMark_eq_ok hopen
  obtain ⟨rfl, hmark'⟩ := expectMark_eq_ok hclose
  exact .body hmark (ih.members hms) hmark'

theorem memberList_succ (ih : Sound n) {ms : List (Property TypeExpr)}
    (h : memberList (n + 1) ts = .ok (ms, rest)) : Derives true .members ts ms rest := by
  rw [memberList] at h
  split at h
  · cases h
    exact .noMember
  · simp only [bind_eq_ok, Prod.exists] at h
    obtain ⟨first, us, hfirst, more, vs, hmore, h⟩ := h
    cases h
    exact .members (ih.member hfirst) (separator_separated us) (ih.members hmore)

theorem member_succ (ih : Sound n) {m : Property TypeExpr}
    (h : OfTokens.member (n + 1) ts = .ok (m, rest)) : Derives true .member ts m rest := by
  simp only [OfTokens.member, bind_eq_ok, Prod.exists] at h
  obtain ⟨modified, name, us, hname, h⟩ := h
  have hname := memberName_of_read hname
  obtain ⟨first, ts', rfl⟩ : ∃ first ts', ts = first :: ts' := by
    cases hname with
    | plain => exact ⟨_, _, rfl⟩
    | modified => exact ⟨_, _, rfl⟩
  have hoptional := optionally_accept .question us
  split at h
  · cases h
  split at h
  · simp only [bind_eq_ok, Prod.exists] at h
    obtain ⟨ps, ws, hps, colon, xs, hcolon, result, ys, hresult, type, zs, htype, h⟩ := h
    cases htype
    cases h
    obtain ⟨rfl, hmark⟩ := expectMark_eq_ok hcolon
    exact .method hname hoptional (ih.parameters hps) hmark (ih.type hresult).1
  · simp only [bind_eq_ok, Prod.exists] at h
    obtain ⟨colon, ws, hcolon, type, xs, htype, h⟩ := h
    cases h
    obtain ⟨hus, hmark⟩ := expectMark_eq_ok hcolon
    rw [hus] at hoptional
    exact .property hname hoptional hmark (ih.type htype).1

theorem parameterList_succ (ih : Sound n) {ps : List (Parameter TypeExpr)}
    (h : parameterList (n + 1) ts = .ok (ps, rest)) : Derives true .parameters ts ps rest := by
  simp only [parameterList, bind_eq_ok, Prod.exists] at h
  obtain ⟨opening, us, hopen, ps, vs, hps, closing, ws, hclose, h⟩ := h
  cases h
  obtain ⟨rfl, hmark⟩ := expectMark_eq_ok hopen
  obtain ⟨rfl, hmark'⟩ := expectMark_eq_ok hclose
  exact .parameters hmark (ih.entries hps) hmark'

theorem parameterEntries_succ (ih : Sound n) {ps : List (Parameter TypeExpr)}
    (h : parameterEntries (n + 1) ts = .ok (ps, rest)) : Derives true .entries ts ps rest := by
  rw [parameterEntries] at h
  split at h
  · cases h
    exact .noEntry
  · simp only [bind_eq_ok, Prod.exists] at h
    obtain ⟨name, us, hname, colon, vs, hcolon, type, ws, htype, xs, hseparator, more, ys, hmore,
      h⟩ := h
    cases h
    obtain ⟨rfl, hisName⟩ := expectName_eq_ok hname
    have hoptional := optionally_accept .question us
    obtain ⟨hus, hmark⟩ := expectMark_eq_ok hcolon
    rw [hus] at hoptional
    have htype := (ih.type htype).1
    rcases separator_eq_ok hseparator with ⟨rfl, hclose⟩ | ⟨comma, rfl, hcomma⟩
    · obtain ⟨rfl, rfl⟩ := parameterEntries_of_close hclose hmore
      exact .lastEntry hisName hoptional hmark htype
    · exact .entries hisName hoptional hmark htype hcomma (ih.entries hmore)

theorem succ (ih : Sound n) : Sound (n + 1) where
  type := ih.typeExpr_succ
  alternatives := ih.alternatives_succ
  suffixed := ih.suffixedType_succ
  primary := ih.primaryType_succ
  arguments := ih.typeArguments_succ
  furtherArguments := ih.furtherArguments_succ
  body := ih.objectBody_succ
  members := ih.memberList_succ
  member := ih.member_succ
  parameters := ih.parameterList_succ
  entries := ih.parameterEntries_succ

end Sound

/-- **What is read is derived**, with every bound on nested calls. -/
theorem sound (n : Nat) : Sound n := by
  induction n with
  | zero => exact .zero
  | succ n ih => exact ih.succ

end Grammar

end DeclaredSchema
