import DeclaredSchema.Proofs.Declaration.Soundness
import Mathlib.Logic.Relation

/-!
# Readers refuse in time

A reader that refuses a token has taken the tokens before it as the front of a phrase: there are
tokens with which this front is a whole phrase, whatever stands behind. So a reader never goes on
behind the first token at which nothing can be completed any more.

This is said of the grammar as it is written, where a phrase is a phrase wherever it stands. Then
readers can be taken apart: if the second of two parts is refused, the first is a phrase already and
the front of the second can be completed; if the first is refused, it can be completed and *some*
phrase can be put in place of the second. Readers look ahead only to choose what to read, and what
they looked at is not taken. So nothing has to be said of it.

## Main definitions

* `PhraseClass` — classes of phrases without their meanings, put together by `Relation.Comp`
* `HasPhrase` — a class has a phrase, wherever it shall stand
* `Stands`, `Breaks` — tokens with a phrase in front, and with the front of one
* `Respects` — a reader takes a phrase, or refuses in time

## Main results

* `Respects.bind` — readers one after the other
* `inTime` — the readers of types, members and parameters refuse in time
-/

namespace DeclaredSchema

open OfTokens

namespace Grammar

/-- A class of phrases without their meanings: the tokens of the first list before the second are
one of them. -/
abbrev PhraseClass := List Token → List Token → Prop

/-- The phrases of a relation that says what they mean. -/
def Of {μ : Type} (R : List Token → μ → List Token → Prop) : PhraseClass := fun ts rest =>
  ∃ m, R ts m rest

/-- The phrases of a nonterminal. -/
def Nonterminal.phrase (p : Nonterminal) : PhraseClass := fun ts rest =>
  ∃ m, Derives false p ts m rest

/-- A single token. -/
def One (p : Token → Prop) : PhraseClass := fun ts rest => ∃ t, p t ∧ ts = t :: rest

/-- A phrase of one kind or of the other. -/
def Either (P Q : PhraseClass) : PhraseClass := fun ts rest => P ts rest ∨ Q ts rest

/-- There are tokens that are a phrase wherever they stand. -/
class HasPhrase (P : PhraseClass) : Prop where
  exists_piece : ∃ piece, ∀ other, P (piece ++ other) other

/-- The tokens before `rest` do not end the file, and are a phrase wherever they stand. -/
def Stands (P : PhraseClass) (ts rest : List Token) : Prop :=
  ∃ piece, ts = piece ++ rest ∧ (∀ t ∈ piece, t.kind ≠ .endOfFile) ∧
    ∀ other, P (piece ++ other) other

/-- The tokens before the one at the place of `e` do not end the file, and with some further tokens
they are a phrase wherever they stand. -/
def Breaks (P : PhraseClass) (ts : List Token) (e : ParseError) : Prop :=
  ∃ front back, ts = front ++ back ∧ (∀ t ∈ front, t.kind ≠ .endOfFile) ∧
    e.position = (here back).position ∧ ∃ more, ∀ other, P (front ++ (more ++ other)) other

/-- A reader takes a phrase, or refuses a token before which a phrase can be completed. -/
structure Respects {α : Type} (P : PhraseClass) (ts : List Token) (x : Outcome (α × List Token)) :
    Prop where
  ok : ∀ {a rest}, x = .ok (a, rest) → Stands P ts rest
  error : ∀ {e}, x = .error (.parse e) → Breaks P ts e

variable {α β : Type} {P Q R : PhraseClass} {t : Token} {ts us rest : List Token} {n : Nat}
  {kind : TokenKind} {kinds : List TokenKind} {mark : Symbol} {e : ParseError}
  {x : Outcome (α × List Token)} {f : α × List Token → Outcome (β × List Token)}

/-! ### One phrase behind another -/

namespace Stands

theorem mono (h : Stands P ts rest) (hPQ : ∀ {ts rest}, P ts rest → Q ts rest) :
    Stands Q ts rest := by
  obtain ⟨piece, hts, hinner, hP⟩ := h
  exact ⟨piece, hts, hinner, fun other => hPQ (hP other)⟩

theorem refl (ts : List Token) : Stands Eq ts ts :=
  ⟨[], rfl, nofun, fun _ => rfl⟩

theorem comp (h : Stands P ts us) (h' : Stands Q us rest) : Stands (Relation.Comp P Q) ts rest := by
  obtain ⟨a, rfl, ha, hP⟩ := h
  obtain ⟨b, rfl, hb, hQ⟩ := h'
  refine ⟨a ++ b, (List.append_assoc ..).symm, ?_, fun other => ⟨b ++ other, ?_, hQ other⟩⟩
  · exact fun t ht => (List.mem_append.mp ht).elim (ha t) (hb t)
  · rw [List.append_assoc]
    exact hP (b ++ other)

/-- The front of a phrase behind a phrase. -/
theorem breaks (h : Stands P ts us) (h' : Breaks Q us e) : Breaks (Relation.Comp P Q) ts e := by
  obtain ⟨a, rfl, ha, hP⟩ := h
  obtain ⟨front, back, rfl, hfront, hplace, more, hQ⟩ := h'
  refine ⟨a ++ front, back, (List.append_assoc ..).symm, ?_, hplace, more, fun other => ?_⟩
  · exact fun t ht => (List.mem_append.mp ht).elim (ha t) (hfront t)
  · refine ⟨front ++ (more ++ other), ?_, hQ other⟩
    rw [List.append_assoc]
    exact hP _

/-- What is taken, is taken whatever it means. -/
theorem ok {a : α} (h : Stands P ts rest) : Respects P ts (.ok (a, rest)) :=
  ⟨fun heq => by cases heq; exact h, nofun⟩

theorem respects (h : Stands P ts us) (h' : Respects Q us x) : Respects (Relation.Comp P Q) ts x :=
  ⟨fun hx => h.comp (h'.ok hx), fun hx => h.breaks (h'.error hx)⟩

end Stands

namespace Breaks

theorem mono (h : Breaks P ts e) (hPQ : ∀ {ts rest}, P ts rest → Q ts rest) : Breaks Q ts e := by
  obtain ⟨front, back, hts, hfront, hplace, more, hP⟩ := h
  exact ⟨front, back, hts, hfront, hplace, more, fun other => hPQ (hP other)⟩

/-- The next token is refused where a phrase could start. -/
theorem here [hP : HasPhrase P] (hplace : e.position = (OfTokens.here ts).position) :
    Breaks P ts e := by
  obtain ⟨piece, hpiece⟩ := hP.exists_piece
  exact ⟨[], ts, rfl, nofun, hplace, piece, hpiece⟩

/-- The front of a phrase, with some phrase in place of what should follow it. -/
theorem comp [hQ : HasPhrase Q] (h : Breaks P ts e) : Breaks (Relation.Comp P Q) ts e := by
  obtain ⟨front, back, hts, hfront, hplace, more, hP⟩ := h
  obtain ⟨piece, hpiece⟩ := hQ.exists_piece
  refine ⟨front, back, hts, hfront, hplace, more ++ piece, fun other => ?_⟩
  refine ⟨piece ++ other, ?_, hpiece other⟩
  rw [List.append_assoc]
  exact hP _

end Breaks

namespace Respects

theorem mono (h : Respects P ts x) (hPQ : ∀ {ts rest}, P ts rest → Q ts rest) : Respects Q ts x :=
  ⟨fun hx => (h.ok hx).mono hPQ, fun hx => (h.error hx).mono hPQ⟩

/-- **Readers one after the other** refuse in time, if each of them does. -/
theorem bind [HasPhrase Q] (h : Respects P ts x)
    (h' : ∀ a us, x = .ok (a, us) → Respects Q us (f (a, us))) :
    Respects (Relation.Comp P Q) ts (x >>= f) := by
  cases x with
  | error error => exact ⟨nofun, fun heq => by cases heq; exact (h.error rfl).comp⟩
  | ok found => exact (h.ok rfl).respects (h' found.1 found.2 rfl)

theorem pure {a : α} : Respects Eq ts (.ok (a, ts)) := (Stands.refl ts).ok

/-- Nothing is taken, where nothing is a phrase. -/
theorem nothing {a : α} (h : ∀ ts, P ts ts) : Respects P ts (.ok (a, ts)) := by
  refine pure.mono ?_
  rintro ts _ rfl
  exact h ts

theorem refuse {fault : String → ParseFault} [HasPhrase P] :
    Respects P ts (refuse ts fault : Outcome (α × List Token)) :=
  ⟨nofun, fun heq => by cases heq; exact .here rfl⟩

theorem unsupported {what : Unsupported} [HasPhrase P] :
    Respects P ts (unsupported what ts : Outcome (α × List Token)) :=
  refuse

/-- What a phrase means does not matter. -/
theorem map {g : α → β} (h : Respects P ts x) :
    Respects P ts (x.map fun (a, rest) => (g a, rest)) := by
  cases x with
  | error error => exact ⟨nofun, fun heq => by cases heq; exact h.error rfl⟩
  | ok found => exact (h.ok rfl).ok

end Respects

/-! ### Some phrase of each kind -/

/-- A token of the given kind. -/
def sampleToken (kind : TokenKind) : Token := ⟨kind, "", .start, none⟩

instance : HasPhrase Eq := ⟨[], fun _ => rfl⟩

instance [hP : HasPhrase P] [hQ : HasPhrase Q] : HasPhrase (Relation.Comp P Q) := by
  obtain ⟨a, ha⟩ := hP.exists_piece
  obtain ⟨b, hb⟩ := hQ.exists_piece
  refine ⟨a ++ b, fun other => ⟨b ++ other, ?_, hb other⟩⟩
  rw [List.append_assoc]
  exact ha _

instance [hP : HasPhrase P] : HasPhrase (Either P Q) := by
  obtain ⟨a, ha⟩ := hP.exists_piece
  exact ⟨a, fun other => .inl (ha other)⟩

instance : HasPhrase (One fun t => t.kind = kind) :=
  ⟨[sampleToken kind], fun _ => ⟨_, rfl, rfl⟩⟩

instance : HasPhrase (One fun t => t.kind.isName = true) :=
  ⟨[sampleToken .identifier], fun _ => ⟨_, rfl, rfl⟩⟩

instance : HasPhrase (Of (Optionally kind)) := ⟨[], fun _ => ⟨_, .absent⟩⟩

instance : HasPhrase (Of Qualifiers) := ⟨[], fun _ => ⟨_, .nil⟩⟩

instance : HasPhrase (Of QualifiedName) :=
  ⟨[sampleToken .identifier], fun _ => ⟨_, .mk rfl .nil⟩⟩

instance : HasPhrase (Of Suffixes) := ⟨[], fun _ => ⟨_, .nil⟩⟩

instance : HasPhrase (Of MemberName) := ⟨[sampleToken .identifier], fun _ => ⟨_, .plain (.inl rfl)⟩⟩

instance : HasPhrase Separator := ⟨[], fun _ => .none⟩

theorem derives_null (other : List Token) : Derives false .type
    (sampleToken (.keyword .nullWord) :: other) (.keyword .null) other :=
  .type .absent (.suffixed (.null rfl) .nil) .noAlternative

instance (p : Nonterminal) : HasPhrase p.phrase := by
  cases p with
  | type => exact ⟨[_], fun other => ⟨_, derives_null other⟩⟩
  | alternatives => exact ⟨[], fun _ => ⟨_, .noAlternative⟩⟩
  | suffixed => exact ⟨[sampleToken (.keyword .nullWord)], fun _ => ⟨_, .suffixed (.null rfl) .nil⟩⟩
  | primary => exact ⟨[sampleToken (.keyword .nullWord)], fun _ => ⟨_, .null rfl⟩⟩
  | arrow =>
    exact ⟨[sampleToken (.symbol .parenOpen), sampleToken (.symbol .parenClose),
      sampleToken (.symbol .arrow), _],
      fun other => ⟨_, .arrow (.parameters rfl .noEntry rfl) rfl (derives_null other)⟩⟩
  | arguments => exact ⟨[], fun _ => ⟨_, .noArguments⟩⟩
  | furtherArguments => exact ⟨[], fun _ => ⟨_, .noArgument⟩⟩
  | body =>
    exact ⟨[sampleToken (.symbol .braceOpen), sampleToken (.symbol .braceClose)],
      fun _ => ⟨_, .body rfl .noMember rfl⟩⟩
  | members => exact ⟨[], fun _ => ⟨_, .noMember⟩⟩
  | member =>
    exact ⟨[sampleToken .identifier, sampleToken (.symbol .colon), _],
      fun other => ⟨_, .property (.plain (.inl rfl)) .absent rfl (derives_null other)⟩⟩
  | parameters =>
    exact ⟨[sampleToken (.symbol .parenOpen), sampleToken (.symbol .parenClose)],
      fun _ => ⟨_, .parameters rfl .noEntry rfl⟩⟩
  | entries => exact ⟨[], fun _ => ⟨_, .noEntry⟩⟩

/-! ### Single tokens -/

theorem stands_one {p : Token → Prop} (ht : p t) (hinner : t.kind ≠ .endOfFile) :
    Stands (One p) (t :: ts) ts :=
  ⟨[t], rfl, fun _ h => List.mem_singleton.mp h ▸ hinner, fun _ => ⟨t, ht, rfl⟩⟩

theorem stands_token [kind.IsInner] (ht : t.kind = kind) :
    Stands (One fun t => t.kind = kind) (t :: ts) ts :=
  stands_one ht (ne_endOfFile ht)

/-- One token is the whole phrase. -/
theorem Respects.token {a : α} [kind.IsInner] (hkind : (here ts).kind = kind)
    (h : ∀ {t us}, t.kind = kind → P (t :: us) us) : Respects P ts (.ok (a, ts.tail)) := by
  obtain ⟨t, us, rfl, ht⟩ := exists_cons_of_kind hkind
  refine (stands_token ht).ok.mono ?_
  rintro _ _ ⟨_, ht, rfl⟩
  exact h ht

/-- A token of the wrong kind is refused where it stands. -/
theorem respects_of_expect_eq_error [HasPhrase P] {error : SyntaxError}
    (h : expect kinds ts = .error error) :
    Respects P ts (.error error : Outcome (α × List Token)) := by
  unfold expect at h
  split at h
  · cases h
  · cases h
    exact .refuse

theorem respects_expect [kind.IsInner] :
    Respects (One fun t => t.kind = kind) ts (expect [kind] ts) := by
  refine ⟨fun {t rest} h => ?_, fun h => ?_⟩
  · obtain ⟨rfl, ht⟩ := expect_kind_eq_ok h
    exact stands_token ht
  · unfold expect at h
    split at h
    · cases h
    · exact Respects.refuse.error h

theorem respects_expectMark :
    Respects (One fun t => t.kind = .symbol mark) ts (expectMark mark ts) :=
  respects_expect

theorem respects_expectName : Respects (One fun t => t.kind.isName = true) ts (expectName ts) := by
  refine ⟨fun {t rest} h => ?_, fun h => ?_⟩
  · obtain ⟨rfl, ht⟩ := expectName_eq_ok h
    exact stands_one ht (ne_endOfFile_of_isName ht)
  · unfold expectName at h
    split at h
    · cases h
    · exact Respects.refuse.error h

theorem stands_accept (mark : Symbol) (ts : List Token) :
    Stands (Of (Optionally (.symbol mark))) ts (accept mark ts).2 := by
  unfold accept
  split
  · next h =>
    obtain ⟨t, us, rfl, ht⟩ := exists_cons_of_sees h
    exact (stands_token ht).mono fun ⟨t, ht, hts⟩ => ⟨true, hts ▸ .present ht⟩
  · exact (Stands.refl ts).mono fun hts => ⟨false, hts ▸ .absent⟩

/-! ### Phrases without types -/

theorem respects_qualifiers : Respects (Of Qualifiers) ts (qualifiers ts) := by
  have hcons : ∀ {ts rest}, Relation.Comp (One fun t => t.kind = .symbol .dot)
      (Relation.Comp (One fun t => t.kind.isName = true)
        (Relation.Comp (Of Qualifiers) Eq)) ts rest → Of Qualifiers ts rest := by
    rintro _ _ ⟨_, ⟨dot, hdot, rfl⟩, _, ⟨name, hname, rfl⟩, _, ⟨more, h⟩, rfl⟩
    exact ⟨_, .cons hdot hname h⟩
  have hnil : ∀ ts, Of Qualifiers ts ts := fun _ => ⟨_, .nil⟩
  induction ts using qualifiers.induct with
  | case1 dot name ts hdot hname ih =>
    rw [qualifiers, if_pos hdot, if_pos hname]
    have hinner := ne_endOfFile_of_isName hname
    exact .mono ((stands_token hdot).respects ((stands_one hname hinner).respects
      (ih.bind fun _ _ _ => .pure))) hcons
  | case2 dot name ts hdot hname =>
    rw [qualifiers, if_pos hdot, if_neg hname]
    exact .mono ((stands_token hdot).respects .refuse) hcons
  | case3 dot name ts hdot =>
    rw [qualifiers, if_neg hdot]
    exact .nothing hnil
  | case4 ts hts hdot =>
    obtain ⟨dot, us, rfl, hkind⟩ := exists_cons_of_sees hdot
    rw [qualifiers, if_pos hdot]
    · exact .mono ((stands_token hkind).respects .refuse) hcons
    · exact hts
  | case5 ts hts hno =>
    rw [qualifiers, if_neg hno]
    · exact .nothing hnil
    · exact hts

theorem respects_qualifiedName : Respects (Of QualifiedName) ts (qualifiedName ts) := by
  refine .mono (respects_expect.bind fun _ _ _ => respects_qualifiers.bind fun _ _ _ => .pure) ?_
  rintro _ _ ⟨_, ⟨head, hhead, rfl⟩, _, ⟨_, h⟩, rfl⟩
  exact ⟨_, .mk hhead h⟩

/-- A token that is a number and has a value. -/
def IsNumeral (t : Token) : Prop :=
  (t.kind = .integer ∨ t.kind = .float) ∧ ∃ value, numberValue t = .ok value

instance : HasPhrase (One IsNumeral) :=
  ⟨[⟨.integer, "0", .start, none⟩], fun _ => ⟨_, ⟨.inl rfl, .int 0, by cbv⟩, rfl⟩⟩

/-- A number that is not read has no place to be refused at. -/
theorem numberValue_ne_parse : numberValue t ≠ .error (.parse e) := by
  unfold numberValue
  split <;> split <;> nofun

theorem respects_numeral {g : Literal → Literal} : Respects (One IsNumeral) ts (do
    let (t, ts) ← expect [.integer, .float] ts
    let value ← numberValue t
    return (g value, ts)) := by
  cases hexpect : expect [.integer, .float] ts with
  | error error => exact respects_of_expect_eq_error hexpect
  | ok found =>
    obtain ⟨t, rest⟩ := found
    obtain ⟨rfl, ht⟩ := expect_eq_ok hexpect (by decide)
    have ht : t.kind = .integer ∨ t.kind = .float := by simpa using ht
    simp only [ok_bind]
    cases hvalue : numberValue t with
    | error error =>
      refine ⟨(by cases ·), fun heq => ?_⟩
      cases heq
      exact absurd hvalue numberValue_ne_parse
    | ok value =>
      have hinner : t.kind ≠ .endOfFile := ht.elim ne_endOfFile ne_endOfFile
      exact (stands_one ⟨ht, value, hvalue⟩ hinner).ok

theorem respects_number : Respects (Of Number) ts (number ts) := by
  refine .mono ((stands_accept .minus ts).respects respects_numeral) ?_
  rintro _ _ ⟨_, ⟨_, hminus⟩, t, ⟨ht, value, hvalue⟩, rfl⟩
  exact ⟨_, .mk hminus ht hvalue⟩

theorem respects_arraySuffixes {element : TypeExpr} :
    Respects (Of Suffixes) ts (arraySuffixes element ts) := by
  have hnil : ∀ ts, Of Suffixes ts ts := fun _ => ⟨_, .nil⟩
  induction element, ts using arraySuffixes.induct with
  | case1 element opening closing ts hopen hclose ih =>
    rw [arraySuffixes, if_pos hopen, if_pos hclose]
    refine .mono ((stands_token hopen).respects ((stands_token hclose).respects ih)) ?_
    rintro _ _ ⟨_, ⟨opening, hopen, rfl⟩, _, ⟨closing, hclose, rfl⟩, k, h⟩
    exact ⟨_, .cons hopen hclose h⟩
  | case2 element opening closing ts hopen hclose =>
    rw [arraySuffixes, if_pos hopen, if_neg hclose]
    exact .unsupported
  | case3 element opening closing ts hopen =>
    rw [arraySuffixes, if_neg hopen]
    exact .nothing hnil
  | case4 element ts hts hopen =>
    rw [arraySuffixes, if_pos hopen]
    · exact .unsupported
    · exact hts
  | case5 element ts hts hno =>
    rw [arraySuffixes, if_neg hno]
    · exact .nothing hnil
    · exact hts

theorem respects_bareName {modified : Bool} :
    Respects (One fun t => startsMember t.kind) ts (bareName modified ts) := by
  have hphrase : HasPhrase (One fun t => startsMember t.kind) :=
    ⟨[sampleToken .identifier], fun _ => ⟨_, .inl rfl, rfl⟩⟩
  unfold bareName
  split
  · exact .unsupported
  split
  · exact .unsupported
  split
  · next hliteral =>
    obtain ⟨t, us, rfl, ht⟩ : ∃ t us, ts = t :: us ∧ (t.kind = .string ∨ t.kind = .integer) := by
      rcases Bool.or_eq_true_iff.mp hliteral with hstring | hinteger
      · obtain ⟨t, us, rfl, ht⟩ := exists_cons_of_sees hstring
        exact ⟨t, us, rfl, .inl ht⟩
      · obtain ⟨t, us, rfl, ht⟩ := exists_cons_of_sees hinteger
        exact ⟨t, us, rfl, .inr ht⟩
    have hinner : t.kind ≠ .endOfFile := ht.elim ne_endOfFile ne_endOfFile
    exact (stands_one (.inr ht) hinner).ok
  · refine .mono (respects_expectName.bind fun _ _ _ => .pure) ?_
    rintro _ _ ⟨_, ⟨t, ht, rfl⟩, rfl⟩
    exact ⟨t, .inl ht, rfl⟩

theorem bareName_cons {modified : Bool} (ht : t.kind.isName = true ∨ t.kind = .string) :
    bareName modified (t :: ts) = .ok ((modified, t), ts) := by
  have hmarks : ∀ mark, t.kind ≠ .symbol mark := fun _ => startsMember.ne_symbol (by
    rcases ht with ht | ht
    · exact .inl ht
    · exact .inr (.inl ht))
  rcases ht with ht | ht
  · simp [bareName, hmarks, expectName_cons ht]
  · simp [bareName, ht]

theorem respects_memberName : Respects (Of MemberName) ts (memberName ts) := by
  rw [memberName_eq]
  split
  · next hmodified =>
    obtain ⟨hword, hnext⟩ := Bool.and_eq_true_iff.mp hmodified
    obtain ⟨word, us, rfl, hkind⟩ := exists_cons_of_sees hword
    have hnext : (here us).kind.isName = true ∨ (here us).kind = .string :=
      (Bool.or_eq_true_iff.mp hnext).imp_right of_decide_eq_true
    obtain ⟨name, vs, rfl⟩ : ∃ name vs, us = name :: vs := by
      cases us with
      | nil => rcases hnext with hnext | hnext <;> cases hnext
      | cons name vs => exact ⟨name, vs, rfl⟩
    rw [here_cons] at hnext
    rw [List.tail_cons, bareName_cons hnext]
    refine ((stands_token hkind).comp (stands_one
      (p := fun t => t.kind.isName = true ∨ t.kind = .string) hnext ?_)).ok.mono ?_
    · exact hnext.elim ne_endOfFile_of_isName ne_endOfFile
    · rintro _ _ ⟨_, ⟨word, hword, rfl⟩, name, hname, rfl⟩
      exact ⟨_, .modified hword hname⟩
  · refine respects_bareName.mono ?_
    rintro _ _ ⟨t, ht, rfl⟩
    exact ⟨_, .plain ht⟩

theorem stands_separated (ts : List Token) : Stands Separator ts (separated ts) := by
  unfold separated
  split
  · next h =>
    obtain ⟨t, us, rfl, ht⟩ := exists_cons_of_sees h
    refine .mono (stands_token ht) ?_
    rintro _ _ ⟨t, ht, rfl⟩
    exact .mark (.inl ht)
  · refine .mono (stands_accept .comma ts) ?_
    rintro _ _ ⟨_, hcomma⟩
    cases hcomma with
    | absent => exact .none
    | present ht => exact .mark (.inr ht)

/-- The comma behind an entry of a list, and the entries behind it. In front of the closing mark
there is no further entry. -/
theorem respects_separator {k : List Token → Outcome (α × List Token)}
    (hmore : ∀ us, Respects P us (k us)) [HasPhrase P]
    (hstop : ∀ us, seesMark mark us = true → Respects Eq us (k us)) :
    Respects (Either Eq (Relation.Comp (One fun t => t.kind = .symbol .comma) P)) ts
      (separator mark ts >>= k) := by
  unfold separator
  split
  · next hclose => exact (hstop ts hclose).mono .inl
  · have hseparator : (expectMark .comma ts).map Prod.snd >>= k =
        expectMark .comma ts >>= fun p => k p.2 := by
      cases expectMark .comma ts <;> rfl
    rw [hseparator]
    exact .mono (respects_expectMark.bind fun _ us _ => hmore us) .inr

/-! ### Types, members and parameters -/

theorem parameterEntries_stops (hclose : seesMark .parenClose ts = true) :
    Respects Eq ts (parameterEntries n ts) := by
  cases n with
  | zero => exact .refuse
  | succ n =>
    rw [parameterEntries, seesEnd, hclose, Bool.true_or, if_pos rfl]
    exact .pure

/-- The readers with the bound `n` on nested calls refuse in time. -/
structure InTime (n : Nat) : Prop where
  type : ∀ {ts}, Respects (Nonterminal.phrase .type) ts (typeExpr n ts)
  alternatives : ∀ {ts}, Respects (Nonterminal.phrase .alternatives) ts (OfTokens.alternatives n ts)
  suffixed : ∀ {ts}, Respects (Nonterminal.phrase .suffixed) ts (suffixedType n ts)
  primary : ∀ {ts}, Respects (Nonterminal.phrase .primary) ts (primaryType n ts)
  arguments : ∀ {ts}, Respects (Nonterminal.phrase .arguments) ts (typeArguments n ts)
  furtherArguments : ∀ {ts},
    Respects (Nonterminal.phrase .furtherArguments) ts (OfTokens.furtherArguments n ts)
  body : ∀ {ts}, Respects (Nonterminal.phrase .body) ts (objectBody n ts)
  members : ∀ {ts}, Respects (Nonterminal.phrase .members) ts (memberList n ts)
  member : ∀ {ts}, Respects (Nonterminal.phrase .member) ts (OfTokens.member n ts)
  parameters : ∀ {ts}, Respects (Nonterminal.phrase .parameters) ts (parameterList n ts)
  entries : ∀ {ts}, Respects (Nonterminal.phrase .entries) ts (parameterEntries n ts)

namespace InTime

theorem zero : InTime 0 where
  type := .refuse
  alternatives := .refuse
  suffixed := .refuse
  primary := .refuse
  arguments := .refuse
  furtherArguments := .refuse
  body := .refuse
  members := .refuse
  member := .refuse
  parameters := .refuse
  entries := .refuse

theorem typeExpr_succ (ih : InTime n) :
    Respects (Nonterminal.phrase .type) ts (typeExpr (n + 1) ts) := by
  rw [typeExpr]
  refine ((stands_accept .pipe ts).respects
    (ih.suffixed.bind fun first us _ => ih.alternatives.bind fun more vs _ => ?_)).mono
      (P := Relation.Comp _ (Relation.Comp _ (Relation.Comp _ Eq))) ?_
  · simp only
    split
    · exact .unsupported
    · exact .pure
  · rintro _ _ ⟨_, ⟨_, hbar⟩, _, ⟨_, h⟩, _, ⟨_, h'⟩, rfl⟩
    exact ⟨_, .type hbar h h'⟩

theorem alternatives_succ (ih : InTime n) :
    Respects (Nonterminal.phrase .alternatives) ts (OfTokens.alternatives (n + 1) ts) := by
  rw [OfTokens.alternatives]
  split
  · next hpipe =>
    obtain ⟨t, us, rfl, ht⟩ := exists_cons_of_sees hpipe
    refine .mono ((stands_token ht).respects
      (ih.suffixed.bind fun _ _ _ => ih.alternatives.bind fun _ _ _ => .pure)) ?_
    rintro _ _ ⟨_, ⟨_, ht, rfl⟩, _, ⟨_, h⟩, _, ⟨_, h'⟩, rfl⟩
    exact ⟨_, .alternative ht h h'⟩
  · exact .nothing fun _ => ⟨_, .noAlternative⟩

theorem suffixedType_succ (ih : InTime n) :
    Respects (Nonterminal.phrase .suffixed) ts (suffixedType (n + 1) ts) := by
  rw [suffixedType]
  refine .mono (ih.primary.bind fun _ _ _ => respects_arraySuffixes) ?_
  rintro _ _ ⟨_, ⟨_, h⟩, _, hsuffixes⟩
  exact ⟨_, .suffixed h hsuffixes⟩

theorem primaryType_succ (ih : InTime n) :
    Respects (Nonterminal.phrase .primary) ts (primaryType (n + 1) ts) := by
  unfold primaryType
  simp only
  split
  · refine .mono (ih.body.bind fun _ _ _ => .pure) ?_
    rintro _ _ ⟨_, ⟨_, h⟩, rfl⟩
    obtain ⟨t, us, rfl, -⟩ := h.body_start
    exact ⟨_, .object h⟩
  · next hkind =>
    obtain ⟨t, us, rfl, ht⟩ := exists_cons_of_kind hkind
    split
    · refine .mono (ih.parameters.bind fun _ _ _ => respects_expectMark.bind fun _ _ _ =>
        ih.type.bind fun _ _ _ => .pure) ?_
      rintro _ _ ⟨_, ⟨_, h⟩, _, ⟨_, harrow, rfl⟩, _, ⟨_, h'⟩, rfl⟩
      exact ⟨_, .freeArrow rfl (.arrow h harrow h')⟩
    · refine .mono ((stands_token ht).respects (ih.type.bind fun _ _ _ =>
        respects_expectMark.bind fun _ _ _ => .pure)) ?_
      rintro _ _ ⟨_, ⟨_, hopen, rfl⟩, _, ⟨_, h⟩, _, ⟨_, hclose, rfl⟩, rfl⟩
      exact ⟨_, .parens hopen h hclose⟩
  · exact .unsupported
  · next hkind => exact .token hkind fun ht => ⟨_, .string ht⟩
  -- integers, floats, and the sign in front of them
  iterate 3
    · refine .mono (respects_number.bind fun _ _ _ => .pure) ?_
      rintro _ _ ⟨_, ⟨_, h⟩, rfl⟩
      exact ⟨_, .number h⟩
  · next hkind => exact .token hkind fun ht => ⟨_, .truth ht⟩
  · next hkind => exact .token hkind fun ht => ⟨_, .falsity ht⟩
  · next hkind => exact .token hkind fun ht => ⟨_, .null ht⟩
  · next hkind => exact .token hkind fun ht => ⟨_, .undefined ht⟩
  · next hkind =>
    obtain ⟨t, us, rfl, ht⟩ := exists_cons_of_kind hkind
    have hinner := ne_endOfFile ht
    split
    · next word hword =>
      refine (stands_one (p := fun t => t.kind = .identifier ∧
        TypeKeyword.ofIdentifier? t.text = some word) ⟨ht, hword⟩ hinner).ok.mono ?_
      rintro _ _ ⟨_, ⟨ht, hword⟩, rfl⟩
      exact ⟨_, .keyword ht hword⟩
    · next hword =>
      split
      · exact .unsupported
      · next hoperator =>
        have hname : Respects (Relation.Comp (One fun t => t.kind = .identifier ∧
            TypeKeyword.ofIdentifier? t.text = none ∧ t.text ∉ operatorWords)
            (Relation.Comp (Of Qualifiers) Eq)) (t :: us) (qualifiedName (t :: us)) := by
          rw [qualifiedName, expect_kind ht, ok_bind]
          exact (stands_one ⟨ht, hword, by simpa using hoperator⟩ hinner).respects
            (respects_qualifiers.bind fun _ _ _ => .pure)
        refine .mono (hname.bind fun _ _ _ => ih.arguments.bind fun _ _ _ => .pure) ?_
        rintro _ _ ⟨_, ⟨_, ⟨_, ⟨ht, hword, hoperator⟩, rfl⟩, _, ⟨_, hname⟩, rfl⟩, _, ⟨_, h⟩, rfl⟩
        exact ⟨_, .reference hword hoperator (.mk ht hname) h⟩
  · exact .refuse

theorem typeArguments_succ (ih : InTime n) :
    Respects (Nonterminal.phrase .arguments) ts (typeArguments (n + 1) ts) := by
  rw [typeArguments]
  split
  · next hopen =>
    obtain ⟨t, us, rfl, ht⟩ := exists_cons_of_sees hopen
    refine .mono ((stands_token ht).respects (ih.type.bind fun _ _ _ => ih.furtherArguments.bind
      fun _ _ _ => respects_expectMark.bind fun _ _ _ => .pure)) ?_
    rintro _ _ ⟨_, ⟨_, hopen, rfl⟩, _, ⟨_, h⟩, _, ⟨_, h'⟩, _, ⟨_, hclose, rfl⟩, rfl⟩
    exact ⟨_, .arguments hopen h h' hclose⟩
  · exact .nothing fun _ => ⟨_, .noArguments⟩

theorem furtherArguments_succ (ih : InTime n) :
    Respects (Nonterminal.phrase .furtherArguments) ts (OfTokens.furtherArguments (n + 1) ts) := by
  rw [OfTokens.furtherArguments]
  split
  · next hcomma =>
    obtain ⟨t, us, rfl, ht⟩ := exists_cons_of_sees hcomma
    refine .mono ((stands_token ht).respects (ih.type.bind fun _ _ _ =>
      ih.furtherArguments.bind fun _ _ _ => .pure)) ?_
    rintro _ _ ⟨_, ⟨_, ht, rfl⟩, _, ⟨_, h⟩, _, ⟨_, h'⟩, rfl⟩
    exact ⟨_, .argument ht h h'⟩
  · exact .nothing fun _ => ⟨_, .noArgument⟩

theorem objectBody_succ (ih : InTime n) :
    Respects (Nonterminal.phrase .body) ts (objectBody (n + 1) ts) := by
  rw [objectBody]
  refine .mono (respects_expectMark.bind fun _ _ _ => ih.members.bind fun _ _ _ =>
    respects_expectMark.bind fun _ _ _ => .pure) ?_
  rintro _ _ ⟨_, ⟨_, hopen, rfl⟩, _, ⟨_, h⟩, _, ⟨_, hclose, rfl⟩, rfl⟩
  exact ⟨_, .body hopen h hclose⟩

theorem memberList_succ (ih : InTime n) :
    Respects (Nonterminal.phrase .members) ts (memberList (n + 1) ts) := by
  rw [memberList]
  split
  · exact .nothing fun _ => ⟨_, .noMember⟩
  · refine .mono (ih.member.bind fun _ us _ => (stands_separated us).respects
      (ih.members.bind fun _ _ _ => .pure)) ?_
    rintro _ _ ⟨_, ⟨_, h⟩, _, hseparator, _, ⟨_, h'⟩, rfl⟩
    exact ⟨_, .members h hseparator h'⟩

/-- What follows the name of a member and its question mark: a type, or parameters and a type. -/
def MemberType : PhraseClass :=
  Either (Relation.Comp (One fun t => t.kind = .symbol .colon) (Nonterminal.phrase .type))
    (Relation.Comp (Nonterminal.phrase .parameters)
      (Relation.Comp (One fun t => t.kind = .symbol .colon) (Nonterminal.phrase .type)))

instance : HasPhrase MemberType :=
  inferInstanceAs (HasPhrase (Either _ _))

theorem phrase_of_memberType (h : Relation.Comp (Of MemberName) (Relation.Comp
    (Of (Optionally (.symbol .question))) MemberType) ts rest) :
    Nonterminal.phrase .member ts rest := by
  obtain ⟨us, ⟨⟨modified, name⟩, hname⟩, vs, ⟨optional, hoptional⟩, h⟩ := h
  obtain ⟨first, ts', rfl⟩ : ∃ first ts', ts = first :: ts' := by
    cases hname <;> exact ⟨_, _, rfl⟩
  rcases h with ⟨_, ⟨_, hcolon, rfl⟩, _, h⟩ | ⟨_, ⟨_, h⟩, _, ⟨_, hcolon, rfl⟩, _, h'⟩
  · exact ⟨_, .property hname hoptional hcolon h⟩
  · exact ⟨_, .method hname hoptional h hcolon h'⟩

theorem member_succ (ih : InTime n) :
    Respects (Nonterminal.phrase .member) ts (OfTokens.member (n + 1) ts) := by
  rw [OfTokens.member]
  refine .mono (respects_memberName.bind fun _ us _ => (stands_accept .question us).respects ?_)
    phrase_of_memberType
  simp only
  split
  · exact .unsupported
  split
  · refine .mono (ih.parameters.bind fun _ _ _ => respects_expectMark.bind fun _ _ _ =>
      ih.type.bind fun _ _ _ => .pure) ?_
    rintro _ _ ⟨_, h, _, hcolon, _, h', rfl⟩
    exact .inr ⟨_, h, _, hcolon, h'⟩
  · refine .mono (respects_expectMark.bind fun _ _ _ => ih.type.bind fun _ _ _ => .pure) ?_
    rintro _ _ ⟨_, hcolon, _, h, rfl⟩
    exact .inl ⟨_, hcolon, h⟩

theorem parameterList_succ (ih : InTime n) :
    Respects (Nonterminal.phrase .parameters) ts (parameterList (n + 1) ts) := by
  rw [parameterList]
  refine .mono (respects_expectMark.bind fun _ _ _ => ih.entries.bind fun _ _ _ =>
    respects_expectMark.bind fun _ _ _ => .pure) ?_
  rintro _ _ ⟨_, ⟨_, hopen, rfl⟩, _, ⟨_, h⟩, _, ⟨_, hclose, rfl⟩, rfl⟩
  exact ⟨_, .parameters hopen h hclose⟩

theorem parameterEntries_succ (ih : InTime n) :
    Respects (Nonterminal.phrase .entries) ts (parameterEntries (n + 1) ts) := by
  rw [parameterEntries]
  split
  · exact .nothing fun _ => ⟨_, .noEntry⟩
  · refine .mono (respects_expectName.bind fun _ us _ => (stands_accept .question us).respects
      (respects_expectMark.bind fun _ _ _ => ih.type.bind fun _ _ _ => respects_separator
        (fun _ => ih.entries.bind fun _ _ _ => .pure)
        fun _ hclose => .mono (.bind (parameterEntries_stops hclose) fun _ _ _ => .pure) ?_)) ?_
    · rintro _ _ ⟨_, rfl, rfl⟩
      rfl
    · rintro _ _ ⟨_, ⟨_, hname, rfl⟩, _, ⟨_, hoptional⟩, _, ⟨_, hcolon, rfl⟩, _, ⟨_, h⟩, h'⟩
      rcases h' with rfl | ⟨_, ⟨_, hcomma, rfl⟩, _, ⟨_, h'⟩, rfl⟩
      · exact ⟨_, .lastEntry hname hoptional hcolon h⟩
      · exact ⟨_, .entries hname hoptional hcolon h hcomma h'⟩

theorem succ (ih : InTime n) : InTime (n + 1) where
  type := ih.typeExpr_succ
  alternatives := ih.alternatives_succ
  suffixed := ih.suffixedType_succ
  primary := ih.primaryType_succ
  arguments := ih.typeArguments_succ
  furtherArguments := ih.furtherArguments_succ
  body := ih.objectBody_succ
  members := ih.memberList_succ
  member := ih.member_succ
  parameters := ih.parameterList_succ
  entries := ih.parameterEntries_succ

end InTime

/-- **The readers of types, members and parameters refuse in time.** -/
theorem inTime (n : Nat) : InTime n := by
  induction n with
  | zero => exact .zero
  | succ n ih => exact ih.succ

end Grammar

end DeclaredSchema
