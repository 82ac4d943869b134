import DeclaredSchema.Proofs.Declaration.Choices
import DeclaredSchema.Proofs.Declaration.Soundness

/-!
# Imports and declarations

The phrases of the top level, in both directions: a reader takes what the settled grammar derives,
and what the settled grammar derives is read. Imports, interfaces and enumerations end with a mark
or a string and are read whatever follows them. An alias ends with a type, so it is read when what
follows cannot belong to a type.

A semicolon behind an import or an alias is taken by its reader, also where a derivation leaves it to
stand for itself.

## Main definitions

* `IsListReader` — a reader of entries with commas between them

## Main results

* `Listed.read`, `listed_of_read` — lists of entries
* `Imports.read`, `imports_of_read` — imports
* `interface_read`, `typeAlias_read`, `enumeration_read` and their converses — declarations
-/

namespace DeclaredSchema

open OfTokens

namespace Grammar

variable {t : Token} {ts us rest : List Token} {n : Nat} {closing : Symbol} {kind : TokenKind}
  {doc : Option String}

/-! ### Lists of entries -/

section Lists

variable {α : Type} {P : List Token → α → List Token → Prop}
  {one : List Token → Outcome (α × List Token)}
  {many : Nat → List Token → Outcome (List α × List Token)} {x : α} {xs : List α}

/-- A reader that takes entries up to the closing mark, with commas between them. -/
structure IsListReader (closing : Symbol) (one : List Token → Outcome (α × List Token))
    (many : Nat → List Token → Outcome (List α × List Token)) : Prop where
  zero : ∀ ts, many 0 ts = .ok ([], ts)
  succ : ∀ n ts, many (n + 1) ts = if seesEnd closing ts then .ok ([], ts) else do
    let (x, ts) ← one ts
    let ts ← separator closing ts
    let (more, ts) ← many n ts
    return (x :: more, ts)

theorem IsListReader.of_close (h : IsListReader closing one many)
    (hts : (here ts).kind = .symbol closing) (n : Nat) : many n ts = .ok ([], ts) := by
  cases n with
  | zero => exact h.zero ts
  | succ n =>
    have hend : seesEnd closing ts = true := by
      rw [seesEnd, seesMark, sees, decide_eq_true hts, Bool.true_or]
    rw [h.succ, if_pos hend]

/-- **Lists are derived**, if their entries are. -/
theorem listed_of_read (h : IsListReader closing one many)
    (hone : ∀ {ts x rest}, one ts = .ok (x, rest) → P ts x rest)
    (hread : many n ts = .ok (xs, rest)) : Listed P ts xs rest := by
  induction n generalizing ts xs with
  | zero =>
    rw [h.zero] at hread
    cases hread
    exact .nil
  | succ n ih =>
    rw [h.succ] at hread
    split at hread
    · cases hread
      exact .nil
    · simp only [bind_eq_ok, Prod.exists] at hread
      obtain ⟨x, us, hx, vs, hseparator, more, ws, hmore, hread⟩ := hread
      cases hread
      rcases separator_eq_ok hseparator with ⟨rfl, hclose⟩ | ⟨comma, rfl, hcomma⟩
      · rw [h.of_close hclose] at hmore
        cases hmore
        exact .last (hone hx)
      · exact .more (hone hx) hcomma (ih hmore)

/-- **Lists are read** up to their closing mark, if their entries are read before commas and closing
marks. -/
theorem Listed.read (h : IsListReader closing one many) (hclosing : closing ≠ .comma)
    (hone : ∀ {ts x rest}, P ts x rest →
      (here rest).kind = .symbol .comma ∨ (here rest).kind = .symbol closing →
      one ts = .ok (x, rest))
    (hconsumes : ∀ {ts x rest}, P ts x rest → Consumes 1 ts rest)
    (hstart : ∀ {ts x rest}, P ts x rest → seesEnd closing ts = false)
    (hlisted : Listed P ts xs rest) (hrest : (here rest).kind = .symbol closing)
    (hn : ts.length ≤ n) : many n ts = .ok (xs, rest) := by
  induction hlisted generalizing n with
  | nil => exact h.of_close hrest n
  | @last ts rest x hx =>
    have hlength : rest.length + 1 ≤ ts.length := (hconsumes hx).length_le
    obtain ⟨k, rfl⟩ : ∃ k, n = k + 1 := Nat.exists_eq_add_one.mpr (by omega)
    rw [h.succ, if_neg (Bool.eq_false_iff.mp (hstart hx)), hone hx (.inr hrest), ok_bind]
    simp only [separator_of_close hrest, ok_bind, h.of_close hrest k, pure_eq_ok]
  | @more t ts us rest x xs hx ht _ ih =>
    have hlength : (us.length + 1) + 1 ≤ ts.length := (hconsumes hx).length_le
    obtain ⟨k, rfl⟩ : ∃ k, n = k + 1 := Nat.exists_eq_add_one.mpr (by omega)
    have hmore : many k us = .ok (xs, rest) := ih hrest (by omega)
    rw [h.succ, if_neg (Bool.eq_false_iff.mp (hstart hx)), hone hx (.inl ht), ok_bind]
    simp only [separator_of_comma ht hclosing, ok_bind, hmore, pure_eq_ok]

theorem Listed.consumes (hP : ∀ {ts x rest}, P ts x rest → Consumes 1 ts rest)
    (h : Listed P ts xs rest) : Consumes 0 ts rest := by
  induction h with
  | nil => exact .refl _
  | last h => exact (hP h).mono (Nat.zero_le _)
  | more h ht _ ih =>
    exact (((hP h).trans (consumes_token ht)).trans ih).mono (Nat.zero_le _)

end Lists

/-! ### Imports -/

/-- One name between the braces of an import. -/
def importedName (ts : List Token) : Outcome (String × List Token) := do
  let (name, ts) ← expectName ts
  let (name, ts) ←
    if sees .identifier ts && (here ts).text = "as" then expectName ts.tail
    else pure (name, ts)
  return (name.text, ts)

theorem importedNames_isListReader : IsListReader .braceClose importedName importedNames where
  zero _ := rfl
  succ n ts := by
    rw [importedNames, importedName]
    cases expectName ts with
    | error error => rfl
    | ok found =>
      simp only [ok_bind]
      by_cases has : (sees .identifier found.2 && decide ((here found.2).text = "as")) = true
      · simp only [if_pos has, bind_assoc, pure_bind]
      · simp only [if_neg has, pure_bind]

theorem specifier_of_read {name : String} (h : importedName ts = .ok (name, rest)) :
    Specifier ts name rest := by
  simp only [importedName, bind_eq_ok, Prod.exists] at h
  obtain ⟨t, us, hname, h⟩ := h
  obtain ⟨rfl, ht⟩ := expectName_eq_ok hname
  split at h
  · next has =>
    obtain ⟨hword, htext⟩ := Bool.and_eq_true_iff.mp has
    obtain ⟨word, ws, rfl, hkind⟩ := exists_cons_of_sees hword
    simp only [bind_eq_ok, Prod.exists, List.tail_cons] at h
    obtain ⟨t', vs, hrenamed, h⟩ := h
    cases h
    obtain ⟨rfl, ht'⟩ := expectName_eq_ok hrenamed
    exact .renamed ht hkind (of_decide_eq_true htext) ht'
  · cases h
    exact .plain ht

theorem Specifier.consumes {name : String} (h : Specifier ts name rest) : Consumes 1 ts rest := by
  cases h with
  | plain ht => exact consumes_name ht
  | renamed ht hword _ ht' =>
    exact (((consumes_name ht).trans (consumes_token hword)).trans (consumes_name ht')).mono
      (by decide)

theorem Specifier.start {name : String} (h : Specifier ts name rest) :
    (here ts).kind.isName = true := by
  cases h with
  | plain ht => exact ht
  | renamed ht => exact ht

theorem Specifier.read {name : String} (h : Specifier ts name rest)
    (hrest : (here rest).kind = .symbol .comma ∨ (here rest).kind = .symbol .braceClose) :
    importedName ts = .ok (name, rest) := by
  have hno : sees .identifier rest = false := by
    refine decide_eq_false fun heq => ?_
    rw [heq] at hrest
    rcases hrest with hrest | hrest <;> cases hrest
  cases h with
  | plain ht => simp [importedName, expectName_cons ht, hno]
  | renamed ht hword htext ht' =>
    simp [importedName, expectName_cons ht, hword, htext, expectName_cons ht']

/-- A list goes on at a name. -/
theorem seesEnd_eq_false_of_isName {mark : Symbol} (h : (here ts).kind.isName = true) :
    seesEnd mark ts = false := by
  have hmark : (here ts).kind ≠ .symbol mark := fun heq => isName_eq_false heq rfl h
  have hend : (here ts).kind ≠ .endOfFile := ne_endOfFile_of_isName h
  rw [seesEnd, seesMark_eq_false hmark, sees, decide_eq_false hend, Bool.or_false]

theorem specifiers_read {names : List String} (h : Listed Specifier ts names rest)
    (hrest : (here rest).kind = .symbol .braceClose) (hn : ts.length ≤ n) :
    importedNames n ts = .ok (names, rest) :=
  h.read importedNames_isListReader nofun (fun h hrest => h.read hrest) (fun h => h.consumes)
    (fun h => seesEnd_eq_false_of_isName h.start) hrest hn

theorem clause_of_read {names : List String} (h : importClause ts = .ok (names, rest)) :
    Clause ts names rest := by
  unfold importClause at h
  split at h
  · next hopen =>
    obtain ⟨t, us, rfl, ht⟩ := exists_cons_of_sees hopen
    simp only [bind_eq_ok, Prod.exists, List.tail_cons] at h
    obtain ⟨names, us, hnames, closing, vs, hclose, h⟩ := h
    cases h
    obtain ⟨rfl, hmark⟩ := expectMark_eq_ok hclose
    exact .names ht (listed_of_read importedNames_isListReader specifier_of_read hnames) hmark
  split at h
  · next hstar =>
    obtain ⟨t, us, rfl, ht⟩ := exists_cons_of_sees hstar
    simp only [bind_eq_ok, Prod.exists, List.tail_cons] at h
    obtain ⟨word, us, hword, h⟩ := h
    obtain ⟨rfl, hkind⟩ := expect_kind_eq_ok hword
    split at h
    · cases h
    · next htext =>
      simp only [bind_eq_ok, Prod.exists] at h
      obtain ⟨name, us, hname, h⟩ := h
      cases h
      obtain ⟨rfl, hkind'⟩ := expect_kind_eq_ok hname
      exact .all ht hkind (Decidable.not_not.mp htext) hkind'
  · simp only [bind_eq_ok, Prod.exists] at h
    obtain ⟨name, us, hname, h⟩ := h
    cases h
    obtain ⟨rfl, hkind⟩ := expect_kind_eq_ok hname
    exact .single hkind

theorem Clause.start {names : List String} (h : Clause ts names rest) :
    (here ts).kind ∈ [TokenKind.symbol .braceOpen, .symbol .star, .identifier] := by
  cases h with
  | names hopen => simp [hopen]
  | all hstar => simp [hstar]
  | single ht => simp [ht]

theorem Clause.consumes {names : List String} (h : Clause ts names rest) :
    Consumes 1 ts rest := by
  cases h with
  | names hopen h hclose =>
    have hnames := h.consumes fun h => h.consumes
    exact (((consumes_token hopen).trans hnames).trans (consumes_token hclose)).mono
      (by decide)
  | all hstar hword _ ht =>
    exact (((consumes_token hstar).trans (consumes_token hword)).trans
      (consumes_token ht)).mono (by decide)
  | single ht => exact consumes_token ht

theorem Clause.read {names : List String} (h : Clause ts names rest) :
    importClause ts = .ok (names, rest) := by
  cases h with
  | @names opening closing ts rest names hopen h hclose =>
    have hnames : importedNames (opening :: ts).length ts = .ok (names, closing :: rest) :=
      specifiers_read h hclose (Nat.le_succ _)
    simp only [importClause, seesMark_cons, decide_eq_true hopen, if_true, List.tail_cons, hnames,
      ok_bind, expectMark_cons hclose, pure_eq_ok]
  | all hstar hword htext ht =>
    simp [importClause, hstar, expect_kind hword, htext, expect_kind ht]
  | single ht => simp [importClause, ht, expect_kind ht]

theorem closing_skip (ts : List Token) : Closing ts (skip .semicolon ts) := by
  rw [skip, accept]
  split
  · next hmark =>
    obtain ⟨t, us, rfl, ht⟩ := exists_cons_of_sees hmark
    exact .semicolon ht
  · exact .none

theorem Closing.consumes (h : Closing ts rest) : Consumes 0 ts rest := by
  cases h with
  | none => exact .refl _
  | semicolon ht => exact (consumes_token ht).mono (Nat.zero_le _)

/-- Readers take a semicolon wherever they can, also one that stands for itself. -/
theorem Closing.skip (h : Closing ts rest) :
    skip .semicolon ts = rest ∨ skip .semicolon ts = OfTokens.skip .semicolon rest := by
  cases h with
  | none => exact .inr rfl
  | semicolon ht =>
    left
    rw [OfTokens.skip, accept, seesMark_cons, decide_eq_true ht, if_pos rfl, List.tail_cons]

theorem imports_of_read {i : Import} (h : importDeclaration ts = .ok (i, rest)) :
    Imports ts i rest := by
  simp only [importDeclaration, bind_eq_ok, Prod.exists] at h
  obtain ⟨word, us, hword, names, vs, hclause, origin, ws, horigin, source, xs, hsource, h⟩ := h
  cases h
  obtain ⟨rfl, hwordKind⟩ := expect_kind_eq_ok hword
  obtain ⟨rfl, horiginKind⟩ := expect_kind_eq_ok horigin
  obtain ⟨rfl, hsourceKind⟩ := expect_kind_eq_ok hsource
  have hclosing := closing_skip xs
  split at hclause
  · next htype =>
    obtain ⟨hmark, -⟩ := Bool.and_eq_true_iff.mp htype
    obtain ⟨t, vs, rfl, ht⟩ := exists_cons_of_sees hmark
    have hclause := clause_of_read hclause
    exact .mk hwordKind (.present ht) hclause horiginKind hsourceKind hclosing
  · have hclause := clause_of_read hclause
    exact .mk hwordKind .absent hclause horiginKind hsourceKind hclosing

theorem Imports.consumes {i : Import} (h : Imports ts i rest) : Consumes 1 ts rest := by
  cases h with
  | mk hword htype hclause horigin hsource hclosing =>
    exact ((((((consumes_token hword).trans (htype.consumes)).trans
      hclause.consumes).trans (consumes_token horigin)).trans
      (consumes_token hsource)).trans hclosing.consumes).mono (by decide)

/-- The word behind `import` is left out, unless it is all that is imported. -/
theorem Optionally.skip_typeWord {typed : Bool} {names : List String}
    (h : Optionally (.keyword .typeWord) ts typed us) (hclause : Clause us names rest) :
    (if seesWord .typeWord ts && kindAt ts 1 ≠ .keyword .fromWord then ts.tail else ts) = us := by
  have hstart := hclause.start
  cases h with
  | absent =>
    have hno : seesWord .typeWord ts = false := by
      refine decide_eq_false fun heq => ?_
      rw [heq] at hstart
      revert hstart
      decide
    simp [hno]
  | present ht =>
    have hno : (here us).kind ≠ .keyword .fromWord := by
      intro heq
      rw [heq] at hstart
      revert hstart
      decide
    simp [ht, hno]

theorem Imports.read {i : Import} (h : Imports ts i us) :
    ∃ rest, importDeclaration ts = .ok (i, rest) ∧ (rest = us ∨ rest = skip .semicolon us) := by
  cases h with
  | @mk word origin source ts _ vs _ typed names hword htype hclause horigin hsource hclosing =>
    refine ⟨skip .semicolon vs, ?_, hclosing.skip⟩
    simp only [importDeclaration, expect_kind hword, ok_bind, htype.skip_typeWord hclause,
      hclause.read, expect_kind horigin, expect_kind hsource, pure_eq_ok]

/-! ### Interfaces -/

theorem furtherBases_of_read {names : List String} (h : furtherBases n ts = .ok (names, rest)) :
    FurtherBases ts names rest := by
  induction n generalizing ts names with
  | zero =>
    cases h
    exact .nil
  | succ n ih =>
    rw [furtherBases] at h
    split at h
    · next hcomma =>
      obtain ⟨t, us, rfl, ht⟩ := exists_cons_of_sees hcomma
      simp only [bind_eq_ok, Prod.exists, List.tail_cons] at h
      obtain ⟨name, vs, hname, more, ws, hmore, h⟩ := h
      cases h
      exact .cons ht (qualifiedName_of_read hname) (ih hmore)
    · cases h
      exact .nil

theorem FurtherBases.consumes {names : List String} (h : FurtherBases ts names rest) :
    Consumes 0 ts rest := by
  induction h with
  | nil => exact .refl _
  | cons ht h _ ih =>
    exact (((consumes_token ht).trans h.consumes).trans ih).mono (Nat.zero_le _)

/-- Behind a base stands the next one, or what follows them all. -/
theorem FurtherBases.follow {names : List String} (h : FurtherBases ts names rest)
    (hrest : (here rest).kind = .symbol .braceOpen) : (here ts).kind ≠ .symbol .dot := by
  cases h with
  | nil =>
    rw [hrest]
    nofun
  | cons ht =>
    rw [here_cons, ht]
    nofun

theorem FurtherBases.read {names : List String} (h : FurtherBases ts names rest)
    (hrest : (here rest).kind = .symbol .braceOpen) (hn : ts.length ≤ n) :
    furtherBases n ts = .ok (names, rest) := by
  induction h generalizing n with
  | @nil ts =>
    have hno : (here ts).kind ≠ .symbol .comma := by
      rw [hrest]
      nofun
    cases n with
    | zero => rfl
    | succ n => rw [furtherBases, seesMark_eq_false hno, if_neg Bool.false_ne_true]
  | @cons t ts us rest name names ht hname hmore ih =>
    have hn : ts.length + 1 ≤ n := hn
    have hlength : us.length + 1 ≤ ts.length := hname.consumes.length_le
    obtain ⟨k, rfl⟩ : ∃ k, n = k + 1 := Nat.exists_eq_add_one.mpr (by omega)
    have hread : furtherBases k us = .ok (names, rest) := ih hrest (by omega)
    simp [furtherBases, ht, hname.read (hmore.follow hrest), hread]

theorem bases_of_read {names : List String} (h : baseNames ts = .ok (names, rest)) :
    Bases ts names rest := by
  unfold baseNames at h
  split at h
  · next hword =>
    obtain ⟨t, us, rfl, ht⟩ := exists_cons_of_sees hword
    simp only [bind_eq_ok, Prod.exists, List.tail_cons] at h
    obtain ⟨name, vs, hname, more, ws, hmore, h⟩ := h
    split at h
    · cases h
    · cases h
      exact .some ht (qualifiedName_of_read hname) (furtherBases_of_read hmore)
  · cases h
    exact .none

theorem Bases.start {names : List String} (h : Bases ts names rest)
    (hrest : (here rest).kind = .symbol .braceOpen) :
    (here ts).kind ∈ [TokenKind.keyword .extendsWord, .symbol .braceOpen] := by
  cases h with
  | none => simp [hrest]
  | some hword => simp [hword]

theorem Bases.consumes {names : List String} (h : Bases ts names rest) : Consumes 0 ts rest := by
  cases h with
  | none => exact .refl _
  | some hword h h' =>
    exact (((consumes_token hword).trans h.consumes).trans h'.consumes).mono (Nat.zero_le _)

theorem Bases.read {names : List String} (h : Bases ts names rest)
    (hrest : (here rest).kind = .symbol .braceOpen) : baseNames ts = .ok (names, rest) := by
  cases h with
  | none =>
    have hno : seesWord .extendsWord ts = false := by
      rw [seesWord, sees, hrest]
      rfl
    rw [baseNames, hno, if_neg Bool.false_ne_true]
  | some hword hname hmore =>
    have hangle : seesMark .angleOpen rest = false := by
      rw [seesMark, sees, hrest]
      rfl
    simp [baseNames, hword, hname.read (hmore.follow hrest), hmore.read hrest (Nat.le_refl _),
      hangle]

theorem interface_of_read {d : Declaration} (h : interfaceDeclaration doc ts = .ok (d, rest)) :
    Declares true doc ts d rest := by
  simp only [interfaceDeclaration, bind_eq_ok, Prod.exists] at h
  obtain ⟨word, us, hword, name, vs, hname, h⟩ := h
  obtain ⟨rfl, hwordKind⟩ := expect_kind_eq_ok hword
  obtain ⟨rfl, hnameKind⟩ := expect_kind_eq_ok hname
  split at h
  · cases h
  · simp only [bind_eq_ok, Prod.exists] at h
    obtain ⟨bases, ws, hbases, ms, xs, hms, h⟩ := h
    cases h
    exact .interface hwordKind hnameKind (bases_of_read hbases) ((sound _).body hms)

theorem interface_read {word name : Token} {bases : List String} {ms : List (Property TypeExpr)}
    (hword : word.kind = .keyword .interfaceWord) (hname : name.kind = .identifier)
    (hbases : Bases ts bases us) (h : Derives true .body us ms rest) :
    interfaceDeclaration doc (word :: name :: ts) =
      .ok (.interface ⟨name.text, bases, ms, doc, name.position⟩, rest) := by
  have hbody : objectBody (depthBound us) us = .ok (ms, rest) :=
    h.read.of_lt trivial (show 12 * us.length + 0 < 12 * us.length + 12 by omega)
  obtain ⟨opening, vs, rfl, hopen⟩ := h.body_start
  have hstart := hbases.start hopen
  have hangle : seesMark .angleOpen ts = false := by
    refine seesMark_eq_false fun heq => ?_
    rw [heq] at hstart
    revert hstart
    decide
  simp [interfaceDeclaration, expect_kind hword, expect_kind hname, hangle, hbases.read hopen,
    hbody]

/-! ### Aliases -/

theorem typeAlias_of_read {d : Declaration} (h : aliasDeclaration doc ts = .ok (d, rest)) :
    Declares true doc ts d rest := by
  simp only [aliasDeclaration, bind_eq_ok, Prod.exists] at h
  obtain ⟨word, us, hword, name, vs, hname, h⟩ := h
  obtain ⟨rfl, hwordKind⟩ := expect_kind_eq_ok hword
  obtain ⟨rfl, hnameKind⟩ := expect_kind_eq_ok hname
  split at h
  · cases h
  · simp only [bind_eq_ok, Prod.exists] at h
    obtain ⟨equals, ws, hequals, e, xs, he, h⟩ := h
    cases h
    obtain ⟨rfl, hequalsKind⟩ := expectMark_eq_ok hequals
    exact .typeAlias hwordKind hnameKind hequalsKind ((sound _).type he).1 (closing_skip xs)

theorem typeAlias_read {word name equals : Token} {e : TypeExpr}
    (hword : word.kind = .keyword .typeWord) (hname : name.kind = .identifier)
    (hequals : equals.kind = .symbol .equals) (h : Derives true .type ts e rest)
    (hrest : (here rest).kind ∉ typeGoesOn) :
    aliasDeclaration doc (word :: name :: equals :: ts) =
      .ok (.typeAlias ⟨name.text, e, doc, name.position⟩, skip .semicolon rest) := by
  have htype : typeExpr (depthBound ts) ts = .ok (e, rest) :=
    h.read.of_lt hrest (show 12 * ts.length + 3 < 12 * ts.length + 12 by omega)
  simp [aliasDeclaration, expect_kind hword, expect_kind hname, hequals, expectMark_cons hequals,
    htype]

/-! ### Enumerations -/

theorem initializer_of_read {value : Option Literal} (h : initializer ts = .ok (value, rest)) :
    Initializer ts value rest := by
  unfold initializer at h
  split at h
  · next hequals =>
    obtain ⟨t, us, rfl, ht⟩ := exists_cons_of_sees hequals
    rw [List.tail_cons] at h
    by_cases hstring : sees .string us = true
    · rw [if_pos hstring] at h
      obtain ⟨t', vs, rfl, ht'⟩ := exists_cons_of_sees hstring
      cases h
      exact .string ht ht'
    · rw [if_neg hstring] at h
      obtain ⟨⟨value, vs⟩, hnumber, hvalue⟩ := map_eq_ok.mp h
      cases hvalue
      exact .number ht (number_of_read hnumber)
  · cases h
    exact .none

theorem Initializer.consumes {value : Option Literal} (h : Initializer ts value rest) :
    Consumes 0 ts rest := by
  cases h with
  | none => exact .refl _
  | string hequals ht =>
    exact ((consumes_token hequals).trans (consumes_token ht)).mono (Nat.zero_le _)
  | number hequals h => exact ((consumes_token hequals).trans h.consumes).mono (Nat.zero_le _)

theorem Initializer.read {value : Option Literal} (h : Initializer ts value rest)
    (hrest : (here rest).kind ≠ .symbol .equals) : initializer ts = .ok (value, rest) := by
  cases h with
  | none => rw [initializer, seesMark_eq_false hrest, if_neg Bool.false_ne_true]
  | string hequals ht => simp [initializer, hequals, ht]
  | @number equals ts rest value hequals h =>
    have hno : sees .string ts = false := by
      obtain ⟨t, us, rfl, ht⟩ := h.start
      refine decide_eq_false fun heq => ?_
      rw [here_cons] at heq
      rw [heq] at ht
      rcases ht with ht | ht | ht <;> cases ht
    simp only [initializer, seesMark_cons, decide_eq_true hequals, if_true, List.tail_cons, hno,
      if_neg Bool.false_ne_true, h.read]
    rfl

/-- One member of an enumeration. -/
def enumMember (ts : List Token) : Outcome (EnumEntry × List Token) := do
  let (name, ts) ← if sees .string ts then pure (here ts, ts.tail) else expectName ts
  let (value, ts) ← initializer ts
  return (⟨name.text, value, name.doc⟩, ts)

theorem enumEntries_isListReader : IsListReader .braceClose enumMember enumEntries where
  zero _ := rfl
  succ n ts := by
    rw [enumEntries, enumMember]
    by_cases hstring : sees .string ts = true
    · simp only [if_pos hstring, bind_assoc, pure_bind]
    · simp only [if_neg hstring, bind_assoc, pure_bind]

theorem enumMember_of_read {x : EnumEntry} (h : enumMember ts = .ok (x, rest)) :
    EnumMember ts x rest := by
  unfold enumMember at h
  split at h
  · next hstring =>
    obtain ⟨t, us, rfl, ht⟩ := exists_cons_of_sees hstring
    simp only [pure_bind, bind_eq_ok, Prod.exists, List.tail_cons] at h
    obtain ⟨value, vs, hvalue, h⟩ := h
    cases h
    exact .mk (.inr ht) (initializer_of_read hvalue)
  · simp only [bind_eq_ok, Prod.exists] at h
    obtain ⟨t, us, hname, value, vs, hvalue, h⟩ := h
    cases h
    obtain ⟨rfl, ht⟩ := expectName_eq_ok hname
    exact .mk (.inl ht) (initializer_of_read hvalue)

theorem EnumMember.consumes {x : EnumEntry} (h : EnumMember ts x rest) : Consumes 1 ts rest := by
  cases h with
  | mk ht h =>
    rcases ht with ht | ht
    · exact (consumes_name ht).trans h.consumes
    · exact (consumes_token ht).trans h.consumes

theorem EnumMember.seesEnd {x : EnumEntry} (h : EnumMember ts x rest) :
    seesEnd .braceClose ts = false := by
  cases h with
  | mk ht =>
    rcases ht with ht | ht
    · exact seesEnd_eq_false_of_isName ht
    · simp [OfTokens.seesEnd, ht]

theorem EnumMember.read {x : EnumEntry} (h : EnumMember ts x rest)
    (hrest : (here rest).kind = .symbol .comma ∨ (here rest).kind = .symbol .braceClose) :
    enumMember ts = .ok (x, rest) := by
  have hno : (here rest).kind ≠ .symbol .equals := by
    rcases hrest with hrest | hrest
    · rw [hrest]
      nofun
    · rw [hrest]
      nofun
  cases h with
  | mk ht h =>
    rcases ht with ht | ht
    · have hstring : _ ≠ TokenKind.string := fun heq => isName_eq_false heq rfl ht
      simp [enumMember, hstring, expectName_cons ht, h.read hno]
    · simp [enumMember, ht, h.read hno]

theorem enumeration_of_read {d : Declaration} {fixed : Bool}
    (hconst : Optionally (.keyword .constWord) ts fixed us)
    (h : enumDeclaration doc us = .ok (d, rest)) : Declares true doc ts d rest := by
  simp only [enumDeclaration, bind_eq_ok, Prod.exists] at h
  obtain ⟨word, vs, hword, name, ws, hname, opening, xs, hopen, members, ys, hmembers, closing, zs,
    hclose, h⟩ := h
  cases h
  obtain ⟨rfl, hwordKind⟩ := expect_kind_eq_ok hword
  obtain ⟨rfl, hnameKind⟩ := expect_kind_eq_ok hname
  obtain ⟨rfl, hopenKind⟩ := expectMark_eq_ok hopen
  obtain ⟨rfl, hcloseKind⟩ := expectMark_eq_ok hclose
  exact .enumeration hconst hwordKind hnameKind hopenKind
    (listed_of_read enumEntries_isListReader enumMember_of_read hmembers) hcloseKind

theorem enumeration_read {word name opening closing : Token} {members : List EnumEntry}
    (hword : word.kind = .keyword .enumWord) (hname : name.kind = .identifier)
    (hopen : opening.kind = .symbol .braceOpen)
    (h : Listed EnumMember ts members (closing :: rest))
    (hclose : closing.kind = .symbol .braceClose) :
    enumDeclaration doc (word :: name :: opening :: ts) =
      .ok (.enumeration ⟨name.text, members, doc, name.position⟩, rest) := by
  have hmembers : enumEntries ts.length ts = .ok (members, closing :: rest) :=
    h.read enumEntries_isListReader nofun (fun h hrest => h.read hrest) (fun h => h.consumes)
      (fun h => h.seesEnd) hclose (Nat.le_refl _)
  simp [enumDeclaration, expect_kind hword, expect_kind hname, expectMark_cons hopen, hmembers,
    expectMark_cons hclose]

end Grammar

end DeclaredSchema
