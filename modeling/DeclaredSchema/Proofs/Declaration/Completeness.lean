import DeclaredSchema.Proofs.Declaration.Phrases
import DeclaredSchema.Proofs.Except

/-!
# What the grammar derives is read

A settled derivation leaves no choice to the reader: a nonterminal that starts where a phrase starts
reads that phrase, if what follows cannot belong to it. Which tokens may follow is a set for each
nonterminal, since a reader goes on as long as it can.

The bound on nested calls is no obstacle. A call that takes no token before the next one moves down
in a fixed order of nonterminals, of which `margin` is the height.

## Main definitions

* `Nonterminal.read` — the reader of a nonterminal
* `Nonterminal.Follow` — what may stand behind a phrase

## Main results

* `Derives.read` — phrases are read as what they mean
-/

namespace DeclaredSchema

open OfTokens

namespace Grammar

variable {p : Nonterminal} {t : Token} {ts us vs rest : List Token} {m : p.Meaning} {e : TypeExpr}
  {es : List TypeExpr} {k n : Nat} {mark : Symbol} {kinds : List TokenKind}

/-! ### Single tokens -/

theorem expect_cons (h : t.kind ∈ kinds) : expect kinds (t :: ts) = .ok (t, ts) := by
  rw [expect, here_cons, if_pos (List.contains_iff_mem.mpr h), List.tail_cons]

theorem expect_kind {kind : TokenKind} (h : t.kind = kind) :
    expect [kind] (t :: ts) = .ok (t, ts) :=
  expect_cons (h ▸ List.mem_singleton_self _)

theorem expectMark_cons (h : t.kind = .symbol mark) : expectMark mark (t :: ts) = .ok (t, ts) :=
  expect_kind h

theorem expectName_cons (h : t.kind.isName = true) : expectName (t :: ts) = .ok (t, ts) := by
  rw [expectName, here_cons, if_pos h, List.tail_cons]

theorem seesMark_eq_false (h : (here ts).kind ≠ .symbol mark) : seesMark mark ts = false :=
  decide_eq_false h

/-- An optional mark is found if it cannot stand behind itself. -/
theorem Optionally.accept {found : Bool} (h : Optionally (.symbol mark) ts found us)
    (hus : (here us).kind ≠ .symbol mark) : accept mark ts = (found, us) := by
  cases h with
  | absent => rw [OfTokens.accept, seesMark_eq_false hus, if_neg Bool.false_ne_true]
  | present h =>
    rw [OfTokens.accept, seesMark_cons, decide_eq_true h, if_pos rfl]
    rfl

theorem Optionally.skip {found : Bool} (h : Optionally (.symbol mark) ts found us)
    (hus : (here us).kind ≠ .symbol mark) : skip mark ts = us := by
  rw [OfTokens.skip, h.accept hus]

/-! ### Phrases without types -/

theorem Qualifiers.read {more : String} (h : Qualifiers ts more rest)
    (hrest : (here rest).kind ≠ .symbol .dot) : qualifiers ts = .ok (more, rest) := by
  induction h with
  | @nil ts =>
    unfold qualifiers
    split
    · rw [here_cons] at hrest
      rw [if_neg hrest]
    · rw [seesMark_eq_false hrest]
      rfl
  | cons hdot hname _ ih => simp [qualifiers, hdot, hname, ih hrest]

theorem QualifiedName.read {name : String} (h : QualifiedName ts name rest)
    (hrest : (here rest).kind ≠ .symbol .dot) : qualifiedName ts = .ok (name, rest) := by
  cases h with
  | mk hhead h =>
    simp only [qualifiedName, expect_kind hhead, ok_bind, h.read hrest, pure_eq_ok]

theorem Number.read {value : Literal} (h : Number ts value rest) :
    number ts = .ok (value, rest) := by
  cases h with
  | @mk _ negative t value hminus ht hvalue =>
    have hdigits : t.kind ∈ [TokenKind.integer, .float] := by simpa using ht
    have hno : (here (t :: rest)).kind ≠ .symbol .minus := by
      rw [here_cons]
      rcases ht with ht | ht
      · rw [ht]
        nofun
      · rw [ht]
        nofun
    simp [number, hminus.accept hno, expect_cons hdigits, hvalue]

theorem Suffixes.read (h : Suffixes ts k rest) (hrest : (here rest).kind ≠ .symbol .bracketOpen)
    (e : TypeExpr) : arraySuffixes e ts = .ok (arrays k e, rest) := by
  induction h generalizing e with
  | @nil ts =>
    unfold arraySuffixes
    split
    · rw [here_cons] at hrest
      rw [if_neg hrest]
      rfl
    · rw [seesMark_eq_false hrest]
      rfl
  | cons hopen hclose _ ih =>
    rw [arraySuffixes, if_pos hopen, if_pos hclose, ih hrest]
    rfl

/-- The kinds of tokens that a member can start with. -/
def startsMember (kind : TokenKind) : Prop :=
  kind.isName = true ∨ kind = .string ∨ kind = .integer

theorem startsMember.ne_symbol (h : startsMember t.kind) : t.kind ≠ .symbol mark := by
  intro heq
  rw [startsMember, heq] at h
  rcases h with h | h | h <;> cases h

/-- The name of a member is read up to a token that is no name. -/
theorem MemberName.read {modified : Bool} {name : Token} (h : MemberName ts (modified, name) rest)
    (hrest : (here rest).kind = .symbol mark) :
    memberName ts = .ok ((modified, name), rest) := by
  have hmarks : startsMember name.kind → ∀ mark, name.kind ≠ .symbol mark := fun hname _ =>
    hname.ne_symbol
  cases h with
  | plain h =>
    have hmarks := hmarks h
    rcases h with h | h | h
    · have hstring : name.kind ≠ .string := fun heq => isName_eq_false heq rfl h
      have hinteger : name.kind ≠ .integer := fun heq => isName_eq_false heq rfl h
      simp [memberName, hrest, hmarks, hstring, hinteger, TokenKind.isName, expectName_cons h]
    · simp [memberName, h]
    · simp [memberName, h]
  | modified hword h =>
    have hmarks := hmarks (h.imp_right .inl)
    rcases h with h | h
    · have hstring : name.kind ≠ .string := fun heq => isName_eq_false heq rfl h
      have hinteger : name.kind ≠ .integer := fun heq => isName_eq_false heq rfl h
      simp [memberName, hword, h, hmarks, hstring, hinteger, expectName_cons h]
    · simp [memberName, hword, h]

/-! ### One step of a reader -/

section Steps

attribute [local simp] typeExpr OfTokens.alternatives suffixedType primaryType typeArguments
  furtherArguments objectBody memberList member parameterList parameterEntries

variable {opening closing : Token} {ms : List (Property TypeExpr)}
  {ps : List (Parameter TypeExpr)}

theorem typeExpr_eq (hskip : skip .pipe ts = us) (h : suffixedType n us = .ok (e, vs))
    (h' : OfTokens.alternatives n vs = .ok (es, rest))
    (hrest : (here rest).kind ≠ .symbol .ampersand) :
    typeExpr (n + 1) ts = .ok (unionOf e es, rest) := by
  rw [typeExpr, hskip, h, ok_bind]
  simp only [h', ok_bind, seesMark_eq_false hrest]
  rfl

theorem alternatives_nil (h : (here ts).kind ≠ .symbol .pipe) :
    OfTokens.alternatives (n + 1) ts = .ok ([], ts) := by
  rw [OfTokens.alternatives, seesMark_eq_false h, if_neg Bool.false_ne_true]

theorem alternatives_cons (ht : t.kind = .symbol .pipe) (h : suffixedType n ts = .ok (e, us))
    (h' : OfTokens.alternatives n us = .ok (es, rest)) :
    OfTokens.alternatives (n + 1) (t :: ts) = .ok (e :: es, rest) := by
  simp [ht, h, h']

theorem suffixedType_eq {e' : TypeExpr} (h : primaryType n ts = .ok (e, us))
    (h' : arraySuffixes e us = .ok (e', rest)) : suffixedType (n + 1) ts = .ok (e', rest) := by
  simp [h, h']

theorem primaryType_object (ht : t.kind = .symbol .braceOpen)
    (h : objectBody n (t :: ts) = .ok (ms, rest)) :
    primaryType (n + 1) (t :: ts) = .ok (.object ms t.position, rest) := by
  simp [ht, h]

theorem primaryType_arrow {arrow : Token} (hopen : (here ts).kind = .symbol .parenOpen)
    (hfunction : opensFunction ts = true) (h : parameterList n ts = .ok (ps, arrow :: us))
    (harrow : arrow.kind = .symbol .arrow) (h' : typeExpr n us = .ok (e, rest)) :
    primaryType (n + 1) ts = .ok (.function ps e, rest) := by
  simp [hopen, hfunction, h, expectMark_cons harrow, h']

theorem primaryType_parens (hopen : opening.kind = .symbol .parenOpen)
    (hfunction : opensFunction (opening :: ts) = false)
    (h : typeExpr n ts = .ok (e, closing :: rest)) (hclose : closing.kind = .symbol .parenClose) :
    primaryType (n + 1) (opening :: ts) = .ok (e, rest) := by
  simp [hopen, hfunction, h, expectMark_cons hclose]

theorem primaryType_number {value : Literal} (h : Number ts value rest) :
    primaryType (n + 1) ts = .ok (.literal value, rest) := by
  have hnumber := h.read
  obtain ⟨t, us, rfl, ht⟩ := h.start
  rcases ht with ht | ht | ht
  · simp [ht, hnumber]
  · simp [ht, hnumber]
  · simp [ht, hnumber]

theorem primaryType_keyword {word : TypeKeyword} (ht : t.kind = .identifier)
    (hword : TypeKeyword.ofIdentifier? t.text = some word) :
    primaryType (n + 1) (t :: ts) = .ok (.keyword word, ts) := by
  simp [ht, hword]

theorem primaryType_reference {name : String} (ht : t.kind = .identifier)
    (hword : TypeKeyword.ofIdentifier? t.text = none) (hoperator : t.text ∉ operatorWords)
    (h : qualifiedName (t :: ts) = .ok (name, us)) (h' : typeArguments n us = .ok (es, rest)) :
    primaryType (n + 1) (t :: ts) = .ok (.reference name es t.position, rest) := by
  simp [ht, hword, hoperator, h, h']

theorem typeArguments_nil (h : (here ts).kind ≠ .symbol .angleOpen) :
    typeArguments (n + 1) ts = .ok ([], ts) := by
  rw [typeArguments, seesMark_eq_false h, if_neg Bool.false_ne_true]

theorem typeArguments_some (hopen : opening.kind = .symbol .angleOpen)
    (h : typeExpr n ts = .ok (e, us)) (h' : furtherArguments n us = .ok (es, closing :: rest))
    (hclose : closing.kind = .symbol .angleClose) :
    typeArguments (n + 1) (opening :: ts) = .ok (e :: es, rest) := by
  simp [hopen, h, h', expectMark_cons hclose]

theorem furtherArguments_nil (h : (here ts).kind ≠ .symbol .comma) :
    furtherArguments (n + 1) ts = .ok ([], ts) := by
  rw [furtherArguments, seesMark_eq_false h, if_neg Bool.false_ne_true]

theorem furtherArguments_cons (ht : t.kind = .symbol .comma) (h : typeExpr n ts = .ok (e, us))
    (h' : furtherArguments n us = .ok (es, rest)) :
    furtherArguments (n + 1) (t :: ts) = .ok (e :: es, rest) := by
  simp [ht, h, h']

theorem objectBody_eq (hopen : opening.kind = .symbol .braceOpen)
    (h : memberList n ts = .ok (ms, closing :: rest))
    (hclose : closing.kind = .symbol .braceClose) :
    objectBody (n + 1) (opening :: ts) = .ok (ms, rest) := by
  simp [expectMark_cons hopen, h, expectMark_cons hclose]

theorem memberList_nil (h : (here ts).kind = .symbol .braceClose) :
    memberList (n + 1) ts = .ok ([], ts) := by
  simp [seesEnd, seesMark, sees, h]

/-- The tokens behind an optional separator. -/
def separated (ts : List Token) : List Token :=
  if seesMark .semicolon ts then ts.tail else skip .comma ts

theorem memberList_cons {m : Property TypeExpr} (hts : startsMember (here ts).kind)
    (h : member n ts = .ok (m, us)) (hseparated : separated us = vs)
    (h' : memberList n vs = .ok (ms, rest)) :
    memberList (n + 1) ts = .ok (m :: ms, rest) := by
  have hclose : seesMark .braceClose ts = false := seesMark_eq_false hts.ne_symbol
  have hend : sees .endOfFile ts = false := by
    refine decide_eq_false fun heq => ?_
    rw [heq] at hts
    rcases hts with hts | hts | hts <;> cases hts
  subst hseparated
  simp only [memberList, seesEnd, hclose, hend, h, ok_bind]
  rw [← separated, h']
  rfl

theorem member_property {name colon : Token} {modified optional : Bool}
    (hname : memberName (t :: ts) = .ok ((modified, name), us))
    (hoptional : accept .question us = (optional, colon :: vs))
    (hcolon : colon.kind = .symbol .colon) (h : typeExpr n vs = .ok (e, rest)) :
    member (n + 1) (t :: ts) =
      .ok (⟨name.text, e, optional, modified, t.doc, name.position⟩, rest) := by
  simp [hname, hoptional, hcolon, expectMark_cons hcolon, h]

theorem member_method {name colon : Token} {ws : List Token} {modified optional : Bool}
    (hname : memberName (t :: ts) = .ok ((modified, name), us))
    (hoptional : accept .question us = (optional, vs))
    (hopen : (here vs).kind = .symbol .parenOpen) (h : parameterList n vs = .ok (ps, colon :: ws))
    (hcolon : colon.kind = .symbol .colon) (h' : typeExpr n ws = .ok (e, rest)) :
    member (n + 1) (t :: ts) =
      .ok (⟨name.text, .function ps e, optional, modified, t.doc, name.position⟩, rest) := by
  simp [hname, hoptional, seesMark, sees, hopen, h, expectMark_cons hcolon, h']

theorem parameterList_eq (hopen : opening.kind = .symbol .parenOpen)
    (h : parameterEntries n ts = .ok (ps, closing :: rest))
    (hclose : closing.kind = .symbol .parenClose) :
    parameterList (n + 1) (opening :: ts) = .ok (ps, rest) := by
  simp [expectMark_cons hopen, h, expectMark_cons hclose]

theorem parameterEntries_nil (h : (here ts).kind = .symbol .parenClose) :
    parameterEntries (n + 1) ts = .ok ([], ts) := by
  simp [seesEnd, seesMark, sees, h]

theorem separator_of_close (h : (here ts).kind = .symbol mark) : separator mark ts = .ok ts := by
  rw [separator, seesMark, sees, decide_eq_true h, if_pos rfl]

theorem separator_of_comma (ht : t.kind = .symbol .comma) (hmark : mark ≠ .comma) :
    separator mark (t :: ts) = .ok ts := by
  have hno : t.kind ≠ .symbol mark := by
    rw [ht]
    exact fun heq => hmark (TokenKind.symbol.inj heq).symm
  rw [separator, seesMark_cons, decide_eq_false hno, if_neg Bool.false_ne_true,
    expectMark_cons ht]
  rfl

theorem parameterEntries_cons {colon : Token} {ws : List Token} {optional : Bool}
    (hname : t.kind.isName = true) (hoptional : accept .question ts = (optional, colon :: us))
    (hcolon : colon.kind = .symbol .colon) (h : typeExpr n us = .ok (e, vs))
    (hseparator : separator .parenClose vs = .ok ws)
    (h' : parameterEntries n ws = .ok (ps, rest)) :
    parameterEntries (n + 1) (t :: ts) = .ok (⟨t.text, e, optional⟩ :: ps, rest) := by
  have hclose : t.kind ≠ .symbol .parenClose := fun heq => isName_eq_false heq rfl hname
  have hend : t.kind ≠ .endOfFile := ne_endOfFile_of_isName hname
  simp [seesEnd, hclose, hend, expectName_cons hname, hoptional,
    expectMark_cons hcolon, h, hseparator, h']

end Steps

/-! ### What may follow -/

/-- What cannot stand behind a type without suffixes. An arrow would make parentheses before it a
parameter list. -/
def primaryGoesOn : List TokenKind := [.symbol .dot, .symbol .angleOpen, .symbol .arrow]

def suffixedGoesOn : List TokenKind := .symbol .bracketOpen :: primaryGoesOn

def typeGoesOn : List TokenKind := .symbol .pipe :: .symbol .ampersand :: suffixedGoesOn

/-- What may stand behind a phrase, so that it is read to its end and no further. -/
def Nonterminal.Follow : Nonterminal → List Token → Prop
  | type, rest | alternatives, rest | arrow, rest | member, rest => (here rest).kind ∉ typeGoesOn
  | suffixed, rest => (here rest).kind ∉ suffixedGoesOn
  | primary, rest | arguments, rest => (here rest).kind ∉ primaryGoesOn
  | furtherArguments, rest => (here rest).kind = .symbol .angleClose
  | members, rest => (here rest).kind = .symbol .braceClose
  | entries, rest => (here rest).kind = .symbol .parenClose
  | body, _ | parameters, _ => True

theorem not_mem_of_kind {kind : TokenKind} (h : t.kind = kind) (hkind : kind ∉ kinds) :
    (here (t :: ts)).kind ∉ kinds := by
  rwa [here_cons, h]

theorem ne_of_not_mem {kind : TokenKind} (h : (here ts).kind ∉ kinds) (hkind : kind ∈ kinds) :
    (here ts).kind ≠ kind :=
  fun heq => h (heq ▸ hkind)

theorem not_suffixedGoesOn (h : (here ts).kind ∉ typeGoesOn) : (here ts).kind ∉ suffixedGoesOn :=
  fun hmem => h (List.mem_cons_of_mem _ (List.mem_cons_of_mem _ hmem))

theorem not_primaryGoesOn (h : (here ts).kind ∉ suffixedGoesOn) : (here ts).kind ∉ primaryGoesOn :=
  fun hmem => h (List.mem_cons_of_mem _ hmem)

theorem follow_of_alternatives (h : Derives true .alternatives ts es rest)
    (hrest : (here rest).kind ∉ typeGoesOn) : (here ts).kind ∉ suffixedGoesOn := by
  cases h with
  | noAlternative => exact not_suffixedGoesOn hrest
  | alternative ht => exact not_mem_of_kind ht (by decide)
  | lastArrow _ ht => exact not_mem_of_kind ht (by decide)

theorem follow_of_suffixes (h : Suffixes ts k rest) (hrest : (here rest).kind ∉ suffixedGoesOn) :
    (here ts).kind ∉ primaryGoesOn := by
  cases h with
  | nil => exact not_primaryGoesOn hrest
  | cons hopen => exact not_mem_of_kind hopen (by decide)

theorem follow_of_arguments (h : Derives true .arguments ts es rest)
    (hrest : (here rest).kind ∉ primaryGoesOn) : (here ts).kind ≠ .symbol .dot := by
  cases h with
  | noArguments => exact ne_of_not_mem hrest (by decide)
  | arguments hopen =>
    rw [here_cons, hopen]
    nofun

theorem follow_of_furtherArguments (h : Derives true .furtherArguments ts es rest)
    (hrest : (here rest).kind = .symbol .angleClose) : (here ts).kind ∉ typeGoesOn := by
  cases h with
  | noArgument =>
    rw [hrest]
    decide
  | argument ht => exact not_mem_of_kind ht (by decide)

theorem not_goesOn_of_startsMember (h : startsMember t.kind) : t.kind ∉ typeGoesOn := by
  have hmarks : ∀ mark, t.kind ≠ .symbol mark := fun mark => h.ne_symbol
  simp [typeGoesOn, suffixedGoesOn, primaryGoesOn, hmarks]

theorem Derives.member_start {member : Property TypeExpr}
    (h : Derives true .member ts member rest) : startsMember (here ts).kind := by
  have hname : ∀ {t : Token} {ts us : List Token} {name : Bool × Token},
      MemberName (t :: ts) name us → startsMember (here (t :: ts)).kind := by
    intro t ts us name hname
    cases hname with
    | plain h => exact h
    | modified hword =>
      rw [here_cons, hword]
      exact .inl rfl
  cases h with
  | property h => exact hname h
  | method h => exact hname h

/-- What stands behind a member: the next one, or the end of the list. -/
theorem Derives.members_start {ms : List (Property TypeExpr)}
    (h : Derives true .members ts ms rest) (hrest : (here rest).kind = .symbol .braceClose) :
    (here ts).kind = .symbol .braceClose ∨ startsMember (here ts).kind := by
  cases h with
  | noMember => exact .inl hrest
  | members h => exact .inr h.member_start

theorem Separator.follow (h : Separator ts us)
    (hus : (here us).kind = .symbol .braceClose ∨ startsMember (here us).kind) :
    (here ts).kind ∉ typeGoesOn := by
  cases h with
  | none =>
    rcases hus with hus | hus
    · rw [hus]
      decide
    · exact not_goesOn_of_startsMember hus
  | mark h =>
    rcases h with h | h
    · exact not_mem_of_kind h (by decide)
    · exact not_mem_of_kind h (by decide)

theorem Separator.separated (h : Separator ts us)
    (hus : (here us).kind = .symbol .braceClose ∨ startsMember (here us).kind) :
    separated ts = us := by
  have hno : ∀ {mark}, mark ≠ .braceClose → (here us).kind ≠ .symbol mark := by
    intro mark hmark
    rcases hus with hus | hus
    · rw [hus]
      exact fun heq => hmark (TokenKind.symbol.inj heq).symm
    · exact hus.ne_symbol
  cases h with
  | none =>
    have hsemicolon : seesMark .semicolon ts = false := seesMark_eq_false (hno nofun)
    have hcomma : seesMark .comma ts = false := seesMark_eq_false (hno nofun)
    simp [Grammar.separated, OfTokens.skip, OfTokens.accept, hsemicolon, hcomma]
  | mark h =>
    rcases h with h | h
    · simp [Grammar.separated, h]
    · simp [Grammar.separated, OfTokens.skip, OfTokens.accept, h]

/-! ### Phrases are read -/

/-- The reader of a nonterminal. Function types are read among the other parts of types. -/
def Nonterminal.read : (p : Nonterminal) → Nat → List Token → Outcome (p.Meaning × List Token)
  | type => typeExpr
  | alternatives => OfTokens.alternatives
  | suffixed => suffixedType
  | primary | arrow => primaryType
  | arguments => typeArguments
  | furtherArguments => OfTokens.furtherArguments
  | body => objectBody
  | members => memberList
  | member => OfTokens.member
  | parameters => parameterList
  | entries => parameterEntries

/-- How many calls a reader may take before it takes a token. -/
def Nonterminal.margin : Nonterminal → Nat
  | alternatives | arguments | furtherArguments | members | entries => 4
  | type | member => 3
  | suffixed => 2
  | primary | arrow => 1
  | body | parameters => 0

/-- A phrase is read with every bound on nested calls that its length allows. -/
def Reads (p : Nonterminal) (ts : List Token) (m : p.Meaning) (rest : List Token) : Prop :=
  p.Follow rest → ∀ n, 12 * ts.length + p.margin ≤ n → p.read (n + 1) ts = .ok (m, rest)

theorem Reads.of_lt (h : Reads p ts m rest) (hfollow : p.Follow rest)
    (hn : 12 * ts.length + p.margin < n) : p.read n ts = .ok (m, rest) := by
  obtain ⟨k, rfl⟩ : ∃ k, n = k + 1 := Nat.exists_eq_add_one.mpr (Nat.zero_lt_of_lt hn)
  exact h hfollow k (Nat.le_of_lt_succ hn)

/-- No alternative is read where a type ends. -/
theorem alternatives_of_follow (hfollow : (here rest).kind ∉ typeGoesOn) (hn : 0 < n) :
    OfTokens.alternatives n rest = .ok ([], rest) := by
  obtain ⟨k, rfl⟩ : ∃ k, n = k + 1 := Nat.exists_eq_add_one.mpr hn
  exact alternatives_nil (ne_of_not_mem hfollow (by decide))

/-- A function type is read where another part of a type may stand. -/
theorem suffixedType_of_arrow (h : Reads .arrow ts e rest) (hfollow : (here rest).kind ∉ typeGoesOn)
    (hn : 12 * ts.length + 2 < n) : suffixedType n ts = .ok (e, rest) := by
  obtain ⟨k, rfl⟩ : ∃ k, n = k + 1 := Nat.exists_eq_add_one.mpr (Nat.zero_lt_of_lt hn)
  have hread : primaryType k ts = .ok (e, rest) :=
    h.of_lt hfollow (show 12 * ts.length + 1 < k by omega)
  exact suffixedType_eq hread (Suffixes.nil.read (ne_of_not_mem hfollow (by decide)) e)

theorem ne_pipe_of_startsType (h : startsType t.kind = true) : t.kind ≠ .symbol .pipe := by
  intro heq
  rw [heq] at h
  cases h

/-- A mark behind a name that is found only if it is there. -/
theorem Optionally.accept_question {found : Bool} (h : Optionally (.symbol .question) ts found us)
    (hus : (here us).kind = .symbol .colon ∨ (here us).kind = .symbol .parenOpen) :
    OfTokens.accept .question ts = (found, us) ∧ ∃ mark, (here ts).kind = .symbol mark := by
  have hno : (here us).kind ≠ .symbol .question := by
    rcases hus with hus | hus
    · rw [hus]
      nofun
    · rw [hus]
      nofun
  refine ⟨h.accept hno, ?_⟩
  cases h with
  | absent => exact hus.elim (fun h => ⟨_, h⟩) fun h => ⟨_, h⟩
  | present h => exact ⟨_, h⟩

/-- **What is derived is read.** -/
theorem Derives.read (h : Derives true p ts m rest) : Reads p ts m rest := by
  induction h with
  | @type ts us vs rest bar e es hbar h h' ih ih' =>
    intro hfollow n hn
    have hn : 12 * ts.length + 3 ≤ n := hn
    have hbarLength : us.length + 0 ≤ ts.length := (hbar.consumes).length_le
    have hlength : vs.length + 1 ≤ us.length := h.consumes.length_le
    obtain ⟨t, us', rfl, ht⟩ := h.suffixed_start
    exact typeExpr_eq (hbar.skip (ne_pipe_of_startsType ht))
      (ih.of_lt (follow_of_alternatives h' hfollow)
        (show 12 * (t :: us').length + 2 < n by omega))
      (ih'.of_lt hfollow (show 12 * vs.length + 4 < n by omega))
      (ne_of_not_mem hfollow (by decide))
  | @onlyArrow ts us rest bar e _ hbar h ih =>
    intro hfollow n hn
    have hn : 12 * ts.length + 3 ≤ n := hn
    have hbarLength : us.length + 0 ≤ ts.length := (hbar.consumes).length_le
    have hlength : rest.length + 1 ≤ us.length := h.consumes.length_le
    obtain ⟨t, us', rfl, ht⟩ := h.arrow_start
    have hpipe : (here (t :: us')).kind ≠ .symbol .pipe := by
      rw [here_cons, ht]
      nofun
    exact typeExpr_eq (hbar.skip hpipe) (suffixedType_of_arrow ih hfollow (by omega))
      (alternatives_of_follow hfollow (by omega)) (ne_of_not_mem hfollow (by decide))
  | noAlternative =>
    intro hfollow n _
    exact alternatives_nil (ne_of_not_mem hfollow (by decide))
  | @alternative t ts us rest e es ht h h' ih ih' =>
    intro hfollow n hn
    have hn : 12 * (ts.length + 1) + 4 ≤ n := hn
    have hlength : us.length + 1 ≤ ts.length := h.consumes.length_le
    exact alternatives_cons ht
      (ih.of_lt (follow_of_alternatives h' hfollow) (show 12 * ts.length + 2 < n by omega))
      (ih'.of_lt hfollow (show 12 * us.length + 4 < n by omega))
  | @lastArrow t ts rest e _ ht h ih =>
    intro hfollow n hn
    have hn : 12 * (ts.length + 1) + 4 ≤ n := hn
    exact alternatives_cons ht (suffixedType_of_arrow ih hfollow (by omega))
      (alternatives_of_follow hfollow (by omega))
  | @suffixed ts us rest e k h hsuffixes ih =>
    intro hfollow n hn
    have hn : 12 * ts.length + 2 ≤ n := hn
    exact suffixedType_eq
      (ih.of_lt (follow_of_suffixes hsuffixes hfollow) (show 12 * ts.length + 1 < n by omega))
      (hsuffixes.read (ne_of_not_mem hfollow (by decide)) e)
  | @arrow t ts us rest ps e h ht h' ih ih' =>
    intro hfollow n hn
    have hn : 12 * ts.length + 1 ≤ n := hn
    have hlength : (us.length + 1) + 1 ≤ ts.length := h.consumes.length_le
    have hfunction := opensFunction_of_parameters h
    obtain ⟨opening, ts', rfl, hopen⟩ := h.parameters_start
    exact primaryType_arrow hopen hfunction
      (ih.of_lt trivial (show 12 * (opening :: ts').length + 0 < n by omega)) ht
      (ih'.of_lt hfollow (show 12 * us.length + 3 < n by omega))
  | freeArrow hfree => cases hfree
  | @object t ts rest ms h ih =>
    intro _ n hn
    have hn : 12 * (t :: ts).length + 1 ≤ n := hn
    obtain ⟨_, _, hts, ht⟩ := h.body_start
    cases hts
    exact primaryType_object ht
      (ih.of_lt trivial (show 12 * (t :: ts).length + 0 < n by omega))
  | @parens opening closing ts rest e hopen h hclose ih =>
    intro hfollow n hn
    have hn : 12 * (ts.length + 1) + 1 ≤ n := hn
    exact primaryType_parens hopen
      (opensFunction_of_parens h hclose (ne_of_not_mem hfollow (by decide)))
      (ih.of_lt (not_mem_of_kind hclose (by decide)) (show 12 * ts.length + 3 < n by omega))
      hclose
  | string ht => exact fun _ n _ => by simp [Nonterminal.read, primaryType, ht]
  | number h => exact fun _ n _ => primaryType_number h
  | truth ht => exact fun _ n _ => by simp [Nonterminal.read, primaryType, ht]
  | falsity ht => exact fun _ n _ => by simp [Nonterminal.read, primaryType, ht]
  | null ht => exact fun _ n _ => by simp [Nonterminal.read, primaryType, ht]
  | undefined ht => exact fun _ n _ => by simp [Nonterminal.read, primaryType, ht]
  | keyword ht hword => exact fun _ n _ => primaryType_keyword ht hword
  | @reference t ts us rest name es hword hoperator hname h ih =>
    intro hfollow n hn
    have hn : 12 * (ts.length + 1) + 1 ≤ n := hn
    have hlength : us.length + 1 ≤ ts.length + 1 := hname.consumes.length_le
    obtain ⟨_, _, hts, ht⟩ := hname.start
    cases hts
    exact primaryType_reference ht hword hoperator (hname.read (follow_of_arguments h hfollow))
      (ih.of_lt hfollow (show 12 * us.length + 4 < n by omega))
  | noArguments =>
    intro hfollow n _
    exact typeArguments_nil (ne_of_not_mem hfollow (by decide))
  | @arguments opening closing ts us rest e es hopen h h' hclose ih ih' =>
    intro _ n hn
    have hn : 12 * (ts.length + 1) + 4 ≤ n := hn
    have hlength : us.length + 1 ≤ ts.length := h.consumes.length_le
    exact typeArguments_some hopen
      (ih.of_lt (follow_of_furtherArguments h' hclose) (show 12 * ts.length + 3 < n by omega))
      (ih'.of_lt hclose (show 12 * us.length + 4 < n by omega)) hclose
  | noArgument =>
    intro hfollow n _
    refine furtherArguments_nil ?_
    rw [hfollow]
    nofun
  | @argument t ts us rest e es ht h h' ih ih' =>
    intro hfollow n hn
    have hn : 12 * (ts.length + 1) + 4 ≤ n := hn
    have hlength : us.length + 1 ≤ ts.length := h.consumes.length_le
    exact furtherArguments_cons ht
      (ih.of_lt (follow_of_furtherArguments h' hfollow) (show 12 * ts.length + 3 < n by omega))
      (ih'.of_lt hfollow (show 12 * us.length + 4 < n by omega))
  | @body opening closing ts rest ms hopen h hclose ih =>
    intro _ n hn
    have hn : 12 * (ts.length + 1) + 0 ≤ n := hn
    exact objectBody_eq hopen (ih.of_lt hclose (show 12 * ts.length + 4 < n by omega)) hclose
  | noMember => exact fun hfollow n _ => memberList_nil hfollow
  | @members ts us vs rest m ms h hseparator h' ih ih' =>
    intro hfollow n hn
    have hn : 12 * ts.length + 4 ≤ n := hn
    have hlength : us.length + 1 ≤ ts.length := h.consumes.length_le
    have hseparatorLength : vs.length + 0 ≤ us.length := hseparator.consumes.length_le
    have hstart := h'.members_start hfollow
    exact memberList_cons h.member_start
      (ih.of_lt (hseparator.follow hstart) (show 12 * ts.length + 3 < n by omega))
      (hseparator.separated hstart) (ih'.of_lt hfollow (show 12 * vs.length + 4 < n by omega))
  | @property first name colon ts us vs rest modified optional e hname hoptional hcolon h ih =>
    intro hfollow n hn
    have hn : 12 * (ts.length + 1) + 3 ≤ n := hn
    have hnameLength : us.length + 1 ≤ ts.length + 1 := hname.consumes.length_le
    have hlength : (vs.length + 1) + 0 ≤ us.length := (hoptional.consumes).length_le
    obtain ⟨haccept, mark, hmark⟩ := hoptional.accept_question (.inl hcolon)
    exact member_property (hname.read hmark) haccept hcolon
      (ih.of_lt hfollow (show 12 * vs.length + 3 < n by omega))
  | @method first name colon ts us vs ws rest modified optional ps e hname hoptional h hcolon h' ih
      ih' =>
    intro hfollow n hn
    have hn : 12 * (ts.length + 1) + 3 ≤ n := hn
    have hnameLength : us.length + 1 ≤ ts.length + 1 := hname.consumes.length_le
    have hlength : vs.length + 0 ≤ us.length := (hoptional.consumes).length_le
    have hparameters : (ws.length + 1) + 1 ≤ vs.length := h.consumes.length_le
    obtain ⟨opening, vs', rfl, hopen⟩ := h.parameters_start
    obtain ⟨haccept, mark, hmark⟩ := hoptional.accept_question (.inr hopen)
    exact member_method (hname.read hmark) haccept hopen
      (ih.of_lt trivial (show 12 * (opening :: vs').length + 0 < n by omega)) hcolon
      (ih'.of_lt hfollow (show 12 * ws.length + 3 < n by omega))
  | @parameters opening closing ts rest ps hopen h hclose ih =>
    intro _ n hn
    have hn : 12 * (ts.length + 1) + 0 ≤ n := hn
    exact parameterList_eq hopen (ih.of_lt hclose (show 12 * ts.length + 4 < n by omega)) hclose
  | noEntry => exact fun hfollow n _ => parameterEntries_nil hfollow
  | @lastEntry name colon ts us rest optional e hname hoptional hcolon h ih =>
    intro hfollow n hn
    have hn : 12 * (ts.length + 1) + 4 ≤ n := hn
    have hlength : (us.length + 1) + 0 ≤ ts.length := (hoptional.consumes).length_le
    have hnone : parameterEntries n rest = .ok ([], rest) := by
      obtain ⟨k, rfl⟩ : ∃ k, n = k + 1 := Nat.exists_eq_add_one.mpr (by omega)
      exact parameterEntries_nil hfollow
    have htype : (here rest).kind ∉ typeGoesOn := by
      rw [hfollow]
      decide
    exact parameterEntries_cons hname (hoptional.accept_question (.inl hcolon)).1 hcolon
      (ih.of_lt htype (show 12 * us.length + 3 < n by omega)) (separator_of_close hfollow) hnone
  | @entries name colon comma ts us vs rest optional e ps hname hoptional hcolon h hcomma h' ih ih' =>
    intro hfollow n hn
    have hn : 12 * (ts.length + 1) + 4 ≤ n := hn
    have hoptionalLength : (us.length + 1) + 0 ≤ ts.length := (hoptional.consumes).length_le
    have hlength : (vs.length + 1) + 1 ≤ us.length := h.consumes.length_le
    exact parameterEntries_cons hname (hoptional.accept_question (.inl hcolon)).1 hcolon
      (ih.of_lt (not_mem_of_kind hcomma (by decide)) (show 12 * us.length + 3 < n by omega))
      (separator_of_comma hcomma nofun) (ih'.of_lt hfollow (show 12 * vs.length + 4 < n by omega))

end Grammar

end DeclaredSchema
