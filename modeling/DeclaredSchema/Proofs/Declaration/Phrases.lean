import DeclaredSchema.Proofs.Declaration.Grammar

/-!
# How phrases start, and where they end

A phrase is a piece of the tokens that does not contain the end of the file, and most phrases are
not empty. What a phrase starts with tells the nonterminals apart, and for types in parentheses and
parameter lists the tokens behind the first one do.

## Main definitions

* `TokenKind.IsInner` — the kinds of tokens before the end of a file
* `Consumes` — a piece of at least `k` tokens stands before the rest
* `Continues` — what can stand behind a name in a type that goes on

## Main results

* `Derives.consumes` — phrases are pieces of the tokens
* `Derives.primary_start` — what a type starts with
* `opensFunction_of_parameters`, `opensFunction_of_parens` — the two uses of parentheses
-/

namespace DeclaredSchema

/-- A kind of tokens that stand before the end of a file. -/
class TokenKind.IsInner (kind : TokenKind) : Prop where
  ne_endOfFile : kind ≠ .endOfFile

namespace TokenKind

instance (word : Keyword) : IsInner (.keyword word) := ⟨nofun⟩
instance (mark : Symbol) : IsInner (.symbol mark) := ⟨nofun⟩
instance : IsInner .string := ⟨nofun⟩
instance : IsInner .integer := ⟨nofun⟩
instance : IsInner .float := ⟨nofun⟩
instance : IsInner .identifier := ⟨nofun⟩

end TokenKind

open OfTokens

namespace Grammar

variable {settled : Bool} {p : Nonterminal} {t : Token} {ts us vs rest : List Token}
  {m : p.Meaning} {e : TypeExpr} {es : List TypeExpr} {j k : Nat} {kind : TokenKind}

/-! ### Pieces of tokens -/

/-- Before `rest` stand at least `k` tokens, and none of them ends the file. -/
def Consumes (k : Nat) (ts rest : List Token) : Prop :=
  ∃ piece, ts = piece ++ rest ∧ k ≤ piece.length ∧ ∀ t ∈ piece, t.kind ≠ .endOfFile

namespace Consumes

theorem refl (ts : List Token) : Consumes 0 ts ts :=
  ⟨[], rfl, Nat.le_refl _, fun _ h => absurd h List.not_mem_nil⟩

theorem cons (ht : t.kind ≠ .endOfFile) (h : Consumes k ts rest) :
    Consumes (k + 1) (t :: ts) rest := by
  obtain ⟨piece, rfl, hlength, hpiece⟩ := h
  refine ⟨t :: piece, rfl, Nat.succ_le_succ hlength, fun t' ht' => ?_⟩
  rcases List.mem_cons.mp ht' with rfl | ht'
  · exact ht
  · exact hpiece t' ht'

theorem trans (h : Consumes j ts us) (h' : Consumes k us rest) : Consumes (j + k) ts rest := by
  obtain ⟨a, rfl, hj, ha⟩ := h
  obtain ⟨b, rfl, hk, hb⟩ := h'
  refine ⟨a ++ b, (List.append_assoc ..).symm, ?_, fun t ht => ?_⟩
  · rw [List.length_append]
    exact Nat.add_le_add hj hk
  · rcases List.mem_append.mp ht with ht | ht
    · exact ha t ht
    · exact hb t ht

theorem mono (h : Consumes k ts rest) (hjk : j ≤ k) : Consumes j ts rest := by
  obtain ⟨piece, hts, hlength, hpiece⟩ := h
  exact ⟨piece, hts, Nat.le_trans hjk hlength, hpiece⟩

theorem length_le (h : Consumes k ts rest) : rest.length + k ≤ ts.length := by
  obtain ⟨piece, rfl, hlength, -⟩ := h
  rw [List.length_append]
  omega

end Consumes

theorem ne_endOfFile [hkind : kind.IsInner] (h : t.kind = kind) : t.kind ≠ .endOfFile :=
  h ▸ hkind.ne_endOfFile

theorem ne_endOfFile_of_isName (h : t.kind.isName = true) : t.kind ≠ .endOfFile := by
  intro heq
  rw [heq] at h
  cases h

/-- One token of a kind that does not end the file. -/
theorem consumes_token [kind.IsInner] (h : t.kind = kind) : Consumes 1 (t :: ts) ts :=
  .cons (ne_endOfFile h) (.refl ts)

theorem consumes_name (h : t.kind.isName = true) : Consumes 1 (t :: ts) ts :=
  .cons (ne_endOfFile_of_isName h) (.refl ts)

theorem Optionally.consumes [kind.IsInner] {found : Bool} (h : Optionally kind ts found rest) :
    Consumes 0 ts rest := by
  cases h with
  | absent => exact .refl _
  | present h => exact (consumes_token h).mono (Nat.zero_le _)

theorem Qualifiers.consumes {more : String} (h : Qualifiers ts more rest) :
    Consumes 0 ts rest := by
  induction h with
  | nil => exact .refl _
  | cons hdot hname _ ih =>
    exact (((consumes_token hdot).trans (consumes_name hname)).trans ih).mono (Nat.zero_le _)

theorem QualifiedName.consumes {name : String} (h : QualifiedName ts name rest) :
    Consumes 1 ts rest := by
  cases h with
  | mk hhead h => exact (consumes_token hhead).trans h.consumes

theorem Number.consumes {value : Literal} (h : Number ts value rest) : Consumes 1 ts rest := by
  cases h with
  | mk hminus ht _ =>
    have hdigits : Consumes 1 (_ :: rest) rest :=
      ht.elim (fun ht => consumes_token ht) fun ht => consumes_token ht
    exact ((hminus.consumes).trans hdigits).mono (Nat.le_refl _)

theorem Suffixes.consumes (h : Suffixes ts k rest) : Consumes 0 ts rest := by
  induction h with
  | nil => exact .refl _
  | cons hopen hclose _ ih =>
    exact (((consumes_token hopen).trans (consumes_token hclose)).trans ih).mono
      (Nat.zero_le _)

theorem MemberName.consumes {name : Bool × Token} (h : MemberName ts name rest) :
    Consumes 1 ts rest := by
  cases h with
  | plain h =>
    rcases h with h | h | h
    · exact consumes_name h
    · exact consumes_token h
    · exact consumes_token h
  | modified hword h =>
    have hname : Consumes 1 (_ :: rest) rest := h.elim consumes_name fun h => consumes_token h
    exact ((consumes_token hword).trans hname).mono (Nat.le_succ _)

theorem Separator.consumes (h : Separator ts rest) : Consumes 0 ts rest := by
  cases h with
  | none => exact .refl _
  | mark h =>
    rcases h with h | h
    · exact (consumes_token h).mono (Nat.zero_le _)
    · exact (consumes_token h).mono (Nat.zero_le _)

/-- The least number of tokens of a phrase. -/
def Nonterminal.least : Nonterminal → Nat
  | type | suffixed | primary | arrow | body | member | parameters => 1
  | alternatives | arguments | furtherArguments | members | entries => 0

/-- **Phrases** are pieces of the tokens, and do not reach over the end of the file. -/
theorem Derives.consumes (h : Derives settled p ts m rest) : Consumes p.least ts rest := by
  induction h with
  | type hbar _ _ ih ih' => exact ((hbar.consumes).trans (ih.trans ih')).mono (Nat.le_refl _)
  | onlyArrow _ hbar _ ih => exact ((hbar.consumes).trans ih).mono (Nat.le_refl _)
  | noAlternative | noArguments | noArgument | noMember | noEntry => exact .refl _
  | alternative ht _ _ ih ih' =>
    exact ((consumes_token ht).trans (ih.trans ih')).mono (Nat.zero_le _)
  | lastArrow _ ht _ ih => exact ((consumes_token ht).trans ih).mono (Nat.zero_le _)
  | suffixed _ hsuffixes ih => exact ih.trans hsuffixes.consumes
  | arrow _ ht _ ih ih' =>
    exact ((ih.trans (consumes_token ht)).trans ih').mono (Nat.le_add_left _ _)
  | freeArrow _ _ ih => exact ih
  | object _ ih => exact ih
  | parens hopen _ hclose ih =>
    exact (((consumes_token hopen).trans ih).trans (consumes_token hclose)).mono
      (Nat.le_add_left _ _)
  | string ht => exact consumes_token ht
  | number h => exact h.consumes
  | truth ht => exact consumes_token ht
  | falsity ht => exact consumes_token ht
  | null ht => exact consumes_token ht
  | undefined ht => exact consumes_token ht
  | keyword ht => exact consumes_token ht
  | reference _ _ hname _ ih => exact hname.consumes.trans ih
  | arguments hopen _ _ hclose ih ih' =>
    exact ((((consumes_token hopen).trans ih).trans ih').trans
      (consumes_token hclose)).mono (Nat.zero_le _)
  | argument ht _ _ ih ih' =>
    exact (((consumes_token ht).trans ih).trans ih').mono (Nat.zero_le _)
  | body hopen _ hclose ih =>
    exact (((consumes_token hopen).trans ih).trans (consumes_token hclose)).mono
      (Nat.le_add_left _ _)
  | members _ hseparator _ ih ih' =>
    exact ((ih.trans hseparator.consumes).trans ih').mono (Nat.zero_le _)
  | property hname hoptional hcolon _ ih =>
    exact (((hname.consumes.trans (hoptional.consumes)).trans
      (consumes_token hcolon)).trans ih).mono (Nat.le_add_left _ _)
  | method hname hoptional _ hcolon _ ih ih' =>
    exact ((((hname.consumes.trans (hoptional.consumes)).trans ih).trans
      (consumes_token hcolon)).trans ih').mono (Nat.le_add_left _ _)
  | parameters hopen _ hclose ih =>
    exact (((consumes_token hopen).trans ih).trans (consumes_token hclose)).mono
      (Nat.le_add_left _ _)
  | lastEntry hname hoptional hcolon _ ih =>
    exact ((((consumes_name hname).trans (hoptional.consumes)).trans
      (consumes_token hcolon)).trans ih).mono (Nat.zero_le _)
  | entries hname hoptional hcolon _ hcomma _ ih ih' =>
    exact ((((((consumes_name hname).trans (hoptional.consumes)).trans
      (consumes_token hcolon)).trans ih).trans (consumes_token hcomma)).trans ih').mono
      (Nat.zero_le _)

/-! ### What phrases start with -/

@[simp] theorem here_cons (t : Token) (ts : List Token) : here (t :: ts) = t := rfl

@[simp] theorem sees_cons (kind : TokenKind) (t : Token) (ts : List Token) :
    sees kind (t :: ts) = decide (t.kind = kind) := rfl

@[simp] theorem seesMark_cons (mark : Symbol) (t : Token) (ts : List Token) :
    seesMark mark (t :: ts) = decide (t.kind = .symbol mark) := rfl

@[simp] theorem seesWord_cons (word : Keyword) (t : Token) (ts : List Token) :
    seesWord word (t :: ts) = decide (t.kind = .keyword word) := rfl

@[simp] theorem kindAt_succ (t : Token) (ts : List Token) (k : Nat) :
    kindAt (t :: ts) (k + 1) = kindAt ts k := rfl

@[simp] theorem kindAt_zero (ts : List Token) : kindAt ts 0 = (here ts).kind := rfl

/-- The kinds of tokens that a type without a bar in front can start with. -/
def startsType : TokenKind → Bool
  | .symbol .braceOpen | .symbol .parenOpen | .symbol .minus | .string | .integer | .float
  | .keyword .trueWord | .keyword .falseWord | .keyword .nullWord | .keyword .undefinedWord
  | .identifier => true
  | _ => false

theorem startsType_of_eq (h : t.kind = kind) (hkind : startsType kind = true) :
    startsType t.kind = true :=
  h ▸ hkind

theorem Derives.parameters_start {ps : List (Parameter TypeExpr)}
    (h : Derives settled .parameters ts ps rest) :
    ∃ t us, ts = t :: us ∧ t.kind = .symbol .parenOpen := by
  cases h with
  | parameters hopen => exact ⟨_, _, rfl, hopen⟩

theorem Derives.arrow_start (h : Derives settled .arrow ts e rest) :
    ∃ t us, ts = t :: us ∧ t.kind = .symbol .parenOpen := by
  cases h with
  | arrow h => exact h.parameters_start

theorem Derives.body_start {ms : List (Property TypeExpr)}
    (h : Derives settled .body ts ms rest) :
    ∃ t us, ts = t :: us ∧ t.kind = .symbol .braceOpen := by
  cases h with
  | body hopen => exact ⟨_, _, rfl, hopen⟩

theorem Number.start {value : Literal} (h : Number ts value rest) :
    ∃ t us, ts = t :: us ∧
      (t.kind = .symbol .minus ∨ t.kind = .integer ∨ t.kind = .float) := by
  cases h with
  | mk hminus ht =>
    cases hminus with
    | absent => exact ⟨_, _, rfl, .inr ht⟩
    | present h => exact ⟨_, _, rfl, .inl h⟩

theorem QualifiedName.start {name : String} (h : QualifiedName ts name rest) :
    ∃ t us, ts = t :: us ∧ t.kind = .identifier := by
  cases h with
  | mk hhead => exact ⟨_, _, rfl, hhead⟩

theorem Derives.primary_start (h : Derives settled .primary ts e rest) :
    ∃ t us, ts = t :: us ∧ startsType t.kind = true := by
  cases h with
  | freeArrow _ h =>
    obtain ⟨t, us, rfl, ht⟩ := h.arrow_start
    exact ⟨t, us, rfl, startsType_of_eq ht rfl⟩
  | object h =>
    obtain ⟨_, _, hts, ht⟩ := h.body_start
    cases hts
    exact ⟨_, _, rfl, startsType_of_eq ht rfl⟩
  | parens hopen => exact ⟨_, _, rfl, startsType_of_eq hopen rfl⟩
  | number h =>
    obtain ⟨t, us, rfl, ht⟩ := h.start
    rcases ht with ht | ht | ht
    · exact ⟨t, us, rfl, startsType_of_eq ht rfl⟩
    · exact ⟨t, us, rfl, startsType_of_eq ht rfl⟩
    · exact ⟨t, us, rfl, startsType_of_eq ht rfl⟩
  | string ht => exact ⟨_, _, rfl, startsType_of_eq ht rfl⟩
  | truth ht => exact ⟨_, _, rfl, startsType_of_eq ht rfl⟩
  | falsity ht => exact ⟨_, _, rfl, startsType_of_eq ht rfl⟩
  | null ht => exact ⟨_, _, rfl, startsType_of_eq ht rfl⟩
  | undefined ht => exact ⟨_, _, rfl, startsType_of_eq ht rfl⟩
  | keyword ht => exact ⟨_, _, rfl, startsType_of_eq ht rfl⟩
  | reference _ _ hname =>
    obtain ⟨_, _, hts, ht⟩ := hname.start
    cases hts
    exact ⟨_, _, rfl, startsType_of_eq ht rfl⟩

theorem Derives.suffixed_start (h : Derives settled .suffixed ts e rest) :
    ∃ t us, ts = t :: us ∧ startsType t.kind = true := by
  cases h with
  | suffixed h => exact h.primary_start

/-! ### Parentheses -/

/-- What stands behind a name at the front of a type, if the type goes on. -/
def Continues (ts : List Token) : Prop :=
  (here ts).kind ∈ [TokenKind.symbol .dot, .symbol .angleOpen, .symbol .bracketOpen, .symbol .pipe]

theorem continues_cons {mark : Symbol} (h : t.kind = .symbol mark)
    (hmark : TokenKind.symbol mark ∈ [TokenKind.symbol .dot, .symbol .angleOpen,
      .symbol .bracketOpen, .symbol .pipe]) : Continues (t :: ts) := by
  rw [Continues, here_cons, h]
  exact hmark

theorem eq_or_continues_of_suffixes (h : Suffixes ts k rest) : ts = rest ∨ Continues ts := by
  cases h with
  | nil => exact .inl rfl
  | cons hopen => exact .inr (continues_cons hopen (by decide))

theorem eq_or_continues_of_arguments (h : Derives settled .arguments ts es rest) :
    ts = rest ∨ Continues ts := by
  cases h with
  | noArguments => exact .inl rfl
  | arguments hopen => exact .inr (continues_cons hopen (by decide))

theorem eq_or_continues_of_alternatives (h : Derives settled .alternatives ts es rest) :
    ts = rest ∨ Continues ts := by
  cases h with
  | noAlternative => exact .inl rfl
  | alternative ht => exact .inr (continues_cons ht (by decide))
  | lastArrow _ ht => exact .inr (continues_cons ht (by decide))

theorem isName_eq_false (h : t.kind = kind) (hkind : kind.isName = false) :
    ¬ t.kind.isName = true := by
  rw [h, hkind]
  exact Bool.false_ne_true

/-- A type that starts with a name is that name, or goes on in one of a few ways. -/
theorem eq_or_continues_of_primary (h : Derives true .primary (t :: ts) e rest)
    (hname : t.kind.isName = true) : ts = rest ∨ Continues ts := by
  cases h with
  | freeArrow hfree => cases hfree
  | object h =>
    obtain ⟨_, _, hts, ht⟩ := h.body_start
    cases hts
    exact absurd hname (isName_eq_false ht rfl)
  | parens hopen => exact absurd hname (isName_eq_false hopen rfl)
  | number h =>
    obtain ⟨_, _, hts, ht⟩ := h.start
    cases hts
    rcases ht with ht | ht | ht
    · exact absurd hname (isName_eq_false ht rfl)
    · exact absurd hname (isName_eq_false ht rfl)
    · exact absurd hname (isName_eq_false ht rfl)
  | string | truth | falsity | null | undefined | keyword => exact .inl rfl
  | reference _ _ hqualified h =>
    cases hqualified with
    | mk _ hqualifiers =>
      cases hqualifiers with
      | nil => exact eq_or_continues_of_arguments h
      | cons hdot => exact .inr (continues_cons hdot (by decide))

theorem eq_or_continues_of_type (h : Derives true .type (t :: ts) e rest)
    (hname : t.kind.isName = true) : ts = rest ∨ Continues ts := by
  have hbar : ∀ {bar us}, Optionally (.symbol .pipe) (t :: ts) bar us → us = t :: ts := by
    intro bar us hbar
    cases hbar with
    | absent => rfl
    | present h => exact absurd hname (isName_eq_false h rfl)
  cases h with
  | type hoptional h h' =>
    obtain rfl := hbar hoptional
    cases h with
    | suffixed h hsuffixes =>
      rcases eq_or_continues_of_primary h hname with rfl | hgoes
      · rcases eq_or_continues_of_suffixes hsuffixes with rfl | hgoes
        · exact eq_or_continues_of_alternatives h'
        · exact .inr hgoes
      · exact .inr hgoes
  | onlyArrow _ hoptional h =>
    obtain rfl := hbar hoptional
    obtain ⟨_, _, hts, ht⟩ := h.arrow_start
    cases hts
    exact absurd hname (isName_eq_false ht rfl)

theorem Derives.type_start (h : Derives settled .type ts e rest) :
    ∃ t us, ts = t :: us ∧ (startsType t.kind = true ∨ t.kind = .symbol .pipe) := by
  have hbar : ∀ {bar us}, Optionally (.symbol .pipe) ts bar us →
      (∃ t vs, us = t :: vs ∧ startsType t.kind = true) →
      ∃ t vs, ts = t :: vs ∧ (startsType t.kind = true ∨ t.kind = .symbol .pipe) := by
    rintro bar us hoptional ⟨t, vs, rfl, ht⟩
    cases hoptional with
    | absent => exact ⟨t, vs, rfl, .inl ht⟩
    | present hpipe => exact ⟨_, _, rfl, .inr hpipe⟩
  cases h with
  | type hoptional h => exact hbar hoptional h.suffixed_start
  | onlyArrow _ hoptional h =>
    obtain ⟨t, vs, rfl, ht⟩ := h.arrow_start
    exact hbar hoptional ⟨t, vs, rfl, startsType_of_eq ht rfl⟩

/-- **Parameter lists** are recognised by the tokens behind their parenthesis. -/
theorem opensFunction_of_parameters {ps : List (Parameter TypeExpr)}
    (h : Derives settled .parameters ts ps rest) : opensFunction ts = true := by
  have hentry : ∀ {opening name colon : Token} {ts us : List Token} {optional : Bool},
      name.kind.isName = true → Optionally (.symbol .question) ts optional (colon :: us) →
      colon.kind = .symbol .colon → opensFunction (opening :: name :: ts) = true := by
    intro opening name colon ts us optional hname hoptional hcolon
    cases hoptional with
    | absent => simp [opensFunction, hname, hcolon]
    | present h => simp [opensFunction, hname, h]
  cases h with
  | parameters hopen h hclose =>
    cases h with
    | noEntry => simp [opensFunction, hclose]
    | lastEntry hname hoptional hcolon => exact hentry hname hoptional hcolon
    | entries hname hoptional hcolon => exact hentry hname hoptional hcolon

/-- **Types in parentheses** are recognised by the tokens behind the parenthesis, if no arrow
follows. -/
theorem opensFunction_of_parens {opening closing : Token}
    (h : Derives true .type ts e (closing :: rest)) (hclose : closing.kind = .symbol .parenClose)
    (harrow : (here rest).kind ≠ .symbol .arrow) : opensFunction (opening :: ts) = false := by
  obtain ⟨t, us, rfl, ht⟩ := h.type_start
  have hopen : t.kind ≠ .symbol .parenClose := by
    rintro heq
    rw [heq] at ht
    rcases ht with ht | ht <;> cases ht
  cases hname : t.kind.isName with
  | false => simp [opensFunction, hopen, hname]
  | true =>
    rcases eq_or_continues_of_type h hname with rfl | hgoes
    · simp [opensFunction, hopen, hclose, harrow]
    · simp only [Continues, List.mem_cons, List.not_mem_nil, or_false] at hgoes
      rcases hgoes with hgoes | hgoes | hgoes | hgoes
      · simp [opensFunction, hopen, hgoes]
      · simp [opensFunction, hopen, hgoes]
      · simp [opensFunction, hopen, hgoes]
      · simp [opensFunction, hopen, hgoes]

end Grammar

end DeclaredSchema
