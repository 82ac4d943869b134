import DeclaredSchema.Proofs.Declaration.TopLevel

/-!
# Declaration files

The reader of declaration files accepts exactly the files of the grammar, and returns what the
settled grammar says they mean. Nothing is asked of the tokens but that they end as those of a text
do: with the end of the file, which stands nowhere else.

Readers of items take a semicolon that may also stand for itself. So the induction over items is
about tokens from which the first semicolon may be missing.

## Main definitions

* `Ended` — tokens that end with the end of the file
* `TakesItem` — one item of the top level
* `ReadsItems` — what the reader of items finds

## Main results

* `isFile_of_read`, `IsFile.read` — the reader and the settled grammar agree
* `ended_of_scan` — texts have tokens that end
* `reads_exactly_files` — files are what the grammar derives
-/

namespace DeclaredSchema

open OfTokens

namespace Grammar

variable {t : Token} {ts us rest : List Token} {n k : Nat} {doc : Option String} {x : Item}
  {is : List Import} {ds : List Declaration}

/-! ### Items -/

/-- A declaration without its modifiers. -/
def declaration (doc : Option String) (ts : List Token) : Outcome (Declaration × List Token) :=
  if seesWord .interfaceWord ts then interfaceDeclaration doc ts
  else if seesWord .typeWord ts then aliasDeclaration doc ts
  else if seesWord .enumWord ts then enumDeclaration doc ts
  else if seesWord .constWord ts && kindAt ts 1 = .keyword .enumWord then
    enumDeclaration doc ts.tail
  else refuse ts .misplaced

theorem item_eq (ts : List Token) : item ts =
    if seesMark .semicolon ts then .ok (.blank, ts.tail)
    else if seesWord .importWord ts then
      (importDeclaration ts).map fun (what, rest) => (.importing what, rest)
    else (declaration (here ts).doc (afterModifiers ts)).map fun (what, rest) =>
      (.declaring what, rest) := rfl

/-- The words that a declaration can start with. -/
def declarationWords : List TokenKind :=
  [.keyword .interfaceWord, .keyword .typeWord, .keyword .enumWord, .keyword .constWord]

/-- The words that mark a declaration as visible. -/
def modifierWords : List TokenKind := [.keyword .exportWord, .keyword .declareWord]

theorem Declares.start {d : Declaration} (h : Declares true doc ts d rest) :
    (here ts).kind ∈ declarationWords := by
  cases h with
  | interface hword => simp [declarationWords, hword]
  | typeAlias hword => simp [declarationWords, hword]
  | enumeration hconst hword =>
    cases hconst with
    | absent => simp [declarationWords, hword]
    | present h => simp [declarationWords, h]

theorem Declares.consumes {d : Declaration} (h : Declares true doc ts d rest) :
    Consumes 1 ts rest := by
  cases h with
  | interface hword hname hbases h =>
    exact ((((consumes_token hword).trans (consumes_token hname)).trans
      hbases.consumes).trans h.consumes).mono (by decide)
  | typeAlias hword hname hequals h hclosing =>
    exact (((((consumes_token hword).trans (consumes_token hname)).trans
      (consumes_token hequals)).trans h.consumes).trans hclosing.consumes).mono (by decide)
  | enumeration hconst hword hname hopen h hclose =>
    have hmembers := h.consumes fun h => h.consumes
    exact ((((((hconst.consumes).trans (consumes_token hword)).trans
      (consumes_token hname)).trans (consumes_token hopen)).trans hmembers).trans
      (consumes_token hclose)).mono (by decide)

theorem declares_of_read {d : Declaration} (h : declaration doc ts = .ok (d, rest)) :
    Declares true doc ts d rest := by
  unfold declaration at h
  split at h
  · exact interface_of_read h
  split at h
  · exact typeAlias_of_read h
  split at h
  · exact enumeration_of_read .absent h
  split at h
  · next hconst =>
    obtain ⟨hfixed, -⟩ := Bool.and_eq_true_iff.mp hconst
    obtain ⟨t, us, rfl, ht⟩ := exists_cons_of_sees hfixed
    exact enumeration_of_read (.present ht) h
  · cases h

/-- Behind an alias, a semicolon ends its type. -/
theorem Closing.follow (h : Closing ts us) (hus : (here us).kind ∉ typeGoesOn) :
    (here ts).kind ∉ typeGoesOn := by
  cases h with
  | none => exact hus
  | semicolon ht => exact not_mem_of_kind ht (by decide)

theorem Declares.read {d : Declaration} (h : Declares true doc ts d us)
    (hus : (here us).kind ∉ typeGoesOn) :
    ∃ rest, declaration doc ts = .ok (d, rest) ∧ (rest = us ∨ rest = skip .semicolon us) := by
  cases h with
  | interface hword hname hbases h =>
    refine ⟨us, ?_, .inl rfl⟩
    rw [declaration, seesWord_cons, decide_eq_true hword, if_pos rfl]
    exact interface_read hword hname hbases h
  | @typeAlias _ _ _ _ vs _ _ hword hname hequals h hclosing =>
    refine ⟨skip .semicolon vs, ?_, hclosing.skip⟩
    simpa [declaration, hword] using typeAlias_read hword hname hequals h (hclosing.follow hus)
  | enumeration hconst hword hname hopen h hclose =>
    refine ⟨us, ?_, .inl rfl⟩
    cases hconst with
    | absent => simpa [declaration, hword] using enumeration_read hword hname hopen h hclose
    | present hfixed =>
      simpa [declaration, hfixed, hword] using enumeration_read hword hname hopen h hclose

theorem modifiers_afterModifiers (ts : List Token) : Modifiers ts (afterModifiers ts) := by
  induction ts with
  | nil => exact .nil
  | cons t ts ih =>
    rw [afterModifiers, List.dropWhile_cons]
    split
    · next ht => exact .cons (by simpa using ht) ih
    · exact .nil

theorem Modifiers.consumes (h : Modifiers ts rest) : Consumes 0 ts rest := by
  induction h with
  | nil => exact .refl _
  | cons ht _ ih =>
    rcases ht with ht | ht
    · exact ((consumes_token ht).trans ih).mono (Nat.zero_le _)
    · exact ((consumes_token ht).trans ih).mono (Nat.zero_le _)

theorem Modifiers.afterModifiers (h : Modifiers ts rest)
    (hexport : (here rest).kind ≠ .keyword .exportWord)
    (hdeclare : (here rest).kind ≠ .keyword .declareWord) :
    OfTokens.afterModifiers ts = rest := by
  induction h with
  | @nil ts =>
    cases ts with
    | nil => rfl
    | cons t ts =>
      have hno : ¬ (decide (t.kind = .keyword .exportWord) ||
          decide (t.kind = .keyword .declareWord)) = true := by
        simpa using ⟨hexport, hdeclare⟩
      rw [OfTokens.afterModifiers, List.dropWhile_cons, if_neg hno]
  | cons ht _ ih =>
    rw [OfTokens.afterModifiers, List.dropWhile_cons, if_pos (by simpa using ht)]
    exact ih hexport hdeclare

/-- One item of the top level, up to `rest`. -/
inductive TakesItem : List Token → Item → List Token → Prop
  | blank {t : Token} {ts : List Token} (ht : t.kind = .symbol .semicolon) :
      TakesItem (t :: ts) .blank ts
  | importing {ts rest : List Token} {i : Import} (h : Imports ts i rest) :
      TakesItem ts (.importing i) rest
  | declaring {first : Token} {ts us rest : List Token} {d : Declaration}
      (hmodifiers : Modifiers (first :: ts) us) (h : Declares true first.doc us d rest) :
      TakesItem (first :: ts) (.declaring d) rest

theorem TakesItem.consumes (h : TakesItem ts x rest) : Consumes 1 ts rest := by
  cases h with
  | blank ht => exact consumes_token ht
  | importing h => exact h.consumes
  | declaring hmodifiers h => exact hmodifiers.consumes.trans h.consumes

theorem takesItem_of_read (h : item ts = .ok (x, rest)) : TakesItem ts x rest := by
  rw [item_eq] at h
  split at h
  · next hmark =>
    obtain ⟨t, us, rfl, ht⟩ := exists_cons_of_sees hmark
    cases h
    exact .blank ht
  split at h
  · obtain ⟨⟨i, us⟩, hi, hx⟩ := map_eq_ok.mp h
    cases hx
    exact .importing (imports_of_read hi)
  · obtain ⟨⟨d, us⟩, hd, hx⟩ := map_eq_ok.mp h
    cases hx
    have hmodifiers := modifiers_afterModifiers ts
    have hd := declares_of_read hd
    cases ts with
    | nil =>
      have hstart : TokenKind.endOfFile ∈ declarationWords := hd.start
      exact absurd hstart (by decide)
    | cons first ts => exact .declaring hmodifiers hd

theorem Modifiers.start {d : Declaration} (h : Modifiers ts us)
    (h' : Declares true doc us d rest) : (here ts).kind ∈ modifierWords ++ declarationWords := by
  cases h with
  | nil => exact List.mem_append_right _ h'.start
  | cons ht =>
    rcases ht with ht | ht
    · simp [modifierWords, ht]
    · simp [modifierWords, ht]

theorem Imports.start {i : Import} (h : Imports ts i rest) :
    (here ts).kind = .keyword .importWord := by
  cases h with
  | mk hword => exact hword

/-- **Items are read**, though a semicolon behind them may be read with them. -/
theorem TakesItem.read (h : TakesItem ts x us) (hus : (here us).kind ∉ typeGoesOn) :
    ∃ rest, item ts = .ok (x, rest) ∧ (rest = us ∨ rest = skip .semicolon us) := by
  cases h with
  | blank ht =>
    refine ⟨us, ?_, .inl rfl⟩
    rw [item_eq, seesMark_cons, decide_eq_true ht, if_pos rfl, List.tail_cons]
  | @importing ts us i h =>
    have hsemicolon : seesMark .semicolon ts = false := by
      refine seesMark_eq_false ?_
      rw [h.start]
      nofun
    have himport : seesWord .importWord ts = true := decide_eq_true h.start
    obtain ⟨rest, hread, hrest⟩ := h.read
    refine ⟨rest, ?_, hrest⟩
    rw [item_eq, hsemicolon, if_neg Bool.false_ne_true, if_pos himport, hread]
    rfl
  | @declaring first ts vs us d hmodifiers h =>
    have hword := hmodifiers.start h
    have hsemicolon : seesMark .semicolon (first :: ts) = false := by
      refine seesMark_eq_false fun heq => ?_
      rw [heq] at hword
      exact absurd hword (by decide)
    have himport : seesWord .importWord (first :: ts) = false := by
      refine decide_eq_false fun heq => ?_
      rw [heq] at hword
      exact absurd hword (by decide)
    have hstart := h.start
    have hafter : afterModifiers (first :: ts) = vs := by
      refine hmodifiers.afterModifiers (fun heq => ?_) fun heq => ?_
      · rw [heq] at hstart
        exact absurd hstart (by decide)
      · rw [heq] at hstart
        exact absurd hstart (by decide)
    obtain ⟨rest, hread, hrest⟩ := h.read hus
    refine ⟨rest, ?_, hrest⟩
    rw [item_eq, hsemicolon, if_neg Bool.false_ne_true, himport, if_neg Bool.false_ne_true, hafter,
      here_cons, hread]
    rfl

/-! ### Files -/

/-- The tokens end with the end of the file, which stands nowhere else among them. -/
def Ended (ts : List Token) : Prop :=
  ∃ last : Token, last.kind = .endOfFile ∧ Consumes 0 ts [last]

theorem Ended.cons (ht : t.kind ≠ .endOfFile) (h : Ended ts) : Ended (t :: ts) := by
  obtain ⟨last, hlast, hconsumes⟩ := h
  exact ⟨last, hlast, (hconsumes.cons ht).mono (Nat.zero_le _)⟩

theorem Ended.of_consumes (h : Ended ts) (hrest : Consumes k ts rest) : Ended rest := by
  obtain ⟨last, hlast, body, rfl, -, hbody⟩ := h
  obtain ⟨piece, happend, -, hpiece⟩ := hrest
  refine ⟨last, hlast, ?_⟩
  rcases List.append_eq_append_iff.mp happend with ⟨as, hpieceEq, has⟩ | ⟨bs, hbodyEq, hrest⟩
  · cases as with
    | nil => exact has ▸ .refl _
    | cons a as =>
      -- the last token would be a part of the piece
      have hmem : last ∈ piece := by
        rw [hpieceEq, (List.cons.inj has).1]
        exact List.mem_append_right _ (List.mem_cons_self ..)
      exact absurd hlast (hpiece last hmem)
  · refine ⟨bs, hrest, Nat.zero_le _, fun t ht => hbody t ?_⟩
    rw [hbodyEq]
    exact List.mem_append_right _ ht

theorem Ended.eq_of_sees (h : Ended ts) (hsees : sees .endOfFile ts = true) :
    ∃ last : Token, last.kind = .endOfFile ∧ ts = [last] := by
  obtain ⟨last, hlast, body, rfl, -, hbody⟩ := h
  cases body with
  | nil => exact ⟨last, hlast, rfl⟩
  | cons t body =>
    have ht : t.kind = .endOfFile := of_decide_eq_true hsees
    exact absurd ht (hbody t (List.mem_cons_self ..))

/-- The reader of items finds the given imports and declarations, with every bound that the number
of tokens allows. -/
def ReadsItems (ts : List Token) (is : List Import) (ds : List Declaration) : Prop :=
  ∀ n, ts.length ≤ n → ∃ found, items n ts = .ok found ∧
    found.filterMap Item.import? = is ∧ found.filterMap Item.declaration? = ds

namespace ReadsItems

theorem nil (ht : t.kind = .endOfFile) : ReadsItems [t] [] [] := by
  intro n hn
  obtain ⟨k, rfl⟩ : ∃ k, n = k + 1 := Nat.exists_eq_add_one.mpr hn
  refine ⟨[], ?_, rfl, rfl⟩
  rw [items, sees_cons, decide_eq_true ht, if_pos rfl]

theorem items_succ (hts : Consumes 1 ts us) (hx : item ts = .ok (x, us)) (n : Nat) :
    items (n + 1) ts = (items n us).map (x :: ·) := by
  have hend : sees .endOfFile ts = false := by
    obtain ⟨piece, rfl, hlength, hpiece⟩ := hts
    cases piece with
    | nil => cases hlength
    | cons t piece => exact decide_eq_false (hpiece t (List.mem_cons_self ..))
  rw [items, hend, if_neg Bool.false_ne_true, hx, ok_bind]
  rfl

/-- A semicolon at the front brings nothing. -/
theorem skip (h : ReadsItems ts is ds) : ReadsItems (skip .semicolon ts) is ds := by
  intro n hn
  cases hmark : seesMark .semicolon ts with
  | false =>
    have hskip : OfTokens.skip .semicolon ts = ts := by
      rw [OfTokens.skip, accept, hmark, if_neg Bool.false_ne_true]
    rw [hskip] at hn ⊢
    exact h n hn
  | true =>
    obtain ⟨t, us, rfl, ht⟩ := exists_cons_of_sees hmark
    have hskip : OfTokens.skip .semicolon (t :: us) = us := by
      rw [OfTokens.skip, accept, hmark, if_pos rfl, List.tail_cons]
    have hblank : item (t :: us) = .ok (.blank, us) := by
      rw [item_eq, hmark, if_pos rfl, List.tail_cons]
    rw [hskip] at hn ⊢
    obtain ⟨found, hfound, his, hds⟩ := h (n + 1) (Nat.succ_le_succ hn)
    rw [items_succ (consumes_token ht) hblank] at hfound
    obtain ⟨more, hmore, rfl⟩ := map_eq_ok.mp hfound
    exact ⟨more, hmore, his, hds⟩

/-- An item in front of others brings its own. -/
theorem cons (h : TakesItem ts x us) (hus : (here us).kind ∉ typeGoesOn)
    (h' : ReadsItems us is ds) :
    ReadsItems ts (x.import?.toList ++ is) (x.declaration?.toList ++ ds) := by
  intro n hn
  obtain ⟨rest, hx, hrest⟩ := h.read hus
  have hread : ReadsItems rest is ds := by
    rcases hrest with rfl | rfl
    · exact h'
    · exact h'.skip
  have hconsumes := (takesItem_of_read hx).consumes
  have hlength : rest.length + 1 ≤ ts.length := hconsumes.length_le
  obtain ⟨k, rfl⟩ : ∃ k, n = k + 1 := Nat.exists_eq_add_one.mpr (by omega)
  obtain ⟨found, hfound, rfl, rfl⟩ := hread k (by omega)
  refine ⟨x :: found, ?_, ?_, ?_⟩
  · rw [items_succ hconsumes hx, hfound]
    rfl
  · cases x <;> rfl
  · cases x <;> rfl

end ReadsItems

/-- No item can be a part of a type before it. -/
theorem Items.start (h : Items true ts is ds rest) (hrest : (here rest).kind = .endOfFile) :
    (here ts).kind ∉ typeGoesOn := by
  cases h with
  | nil =>
    rw [hrest]
    decide
  | blank ht => exact not_mem_of_kind ht (by decide)
  | importing h =>
    rw [h.start]
    decide
  | declaring hmodifiers h =>
    have hdisjoint : ∀ kind ∈ modifierWords ++ declarationWords, kind ∉ typeGoesOn := by decide
    exact hdisjoint _ (hmodifiers.start h)

/-- **Files are read.** -/
theorem Items.read (h : Items true ts is ds [t]) (ht : t.kind = .endOfFile) :
    ReadsItems ts is ds := by
  generalize hrest : [t] = rest at h
  induction h with
  | nil =>
    subst hrest
    exact .nil ht
  | blank hmark h ih => exact .cons (.blank hmark) (h.start (hrest ▸ ht)) (ih hrest)
  | importing h h' ih => exact .cons (.importing h) (h'.start (hrest ▸ ht)) (ih hrest)
  | declaring hmodifiers h h' ih =>
    exact .cons (.declaring hmodifiers h) (h'.start (hrest ▸ ht)) (ih hrest)

theorem IsFile.read {u : SourceUnit} (h : IsFile true ts u) : SourceUnit.ofTokens ts = .ok u := by
  obtain ⟨last, hlast, h⟩ := h
  obtain ⟨found, hfound, his, hds⟩ := h.read hlast ts.length (Nat.le_refl _)
  rw [SourceUnit.ofTokens, hfound, ok_bind, his, hds]
  rfl

theorem Items.of_takesItem {found : List Item} (h : TakesItem ts x us)
    (h' : Items true us (found.filterMap Item.import?) (found.filterMap Item.declaration?) rest) :
    Items true ts ((x :: found).filterMap Item.import?)
      ((x :: found).filterMap Item.declaration?) rest := by
  cases h with
  | blank ht => exact .blank ht h'
  | importing h => exact .importing h h'
  | declaring hmodifiers h => exact .declaring hmodifiers h h'

/-- **What is read is a file**, if the tokens end with the end of the file. -/
theorem items_of_read {found : List Item} (h : items n ts = .ok found) (hn : ts.length ≤ n)
    (hts : Ended ts) : ∃ last : Token, last.kind = .endOfFile ∧
      Items true ts (found.filterMap Item.import?) (found.filterMap Item.declaration?) [last] := by
  induction n generalizing ts found with
  | zero =>
    obtain ⟨last, hlast, hconsumes⟩ := hts
    have hlength : 1 + 0 ≤ ts.length := hconsumes.length_le
    omega
  | succ n ih =>
    rw [items] at h
    split at h
    · next hend =>
      obtain ⟨last, hlast, rfl⟩ := hts.eq_of_sees hend
      cases h
      exact ⟨last, hlast, .nil⟩
    · simp only [bind_eq_ok, Prod.exists] at h
      obtain ⟨x, us, hx, more, hmore, h⟩ := h
      cases h
      have hitem := takesItem_of_read hx
      have hlength : us.length + 1 ≤ ts.length := hitem.consumes.length_le
      obtain ⟨last, hlast, hitems⟩ := ih hmore (by omega) (hts.of_consumes hitem.consumes)
      exact ⟨last, hlast, .of_takesItem hitem hitems⟩

theorem isFile_of_read {u : SourceUnit} (h : SourceUnit.ofTokens ts = .ok u) (hts : Ended ts) :
    IsFile true ts u := by
  obtain ⟨found, hfound, h⟩ := bind_eq_ok.mp h
  cases h
  exact items_of_read hfound (Nat.le_refl _) hts

/-! ### The tokens of a text -/

/-- No lexeme is the end of the file. -/
theorem ne_endOfFile_of_readLexeme {p : Position} {c : Char} {text : List Char} {kind : TokenKind}
    {word : String} {more : Nat} (h : readLexeme p c text = .ok ⟨.token kind word, more⟩) :
    kind ≠ .endOfFile := by
  rintro rfl
  unfold readLexeme at h
  split at h
  · cases h
  split at h
  · unfold slashLexeme at h
    split at h
    · cases h
    · split at h
      · unfold blockComment at h
        split at h <;> cases h
      · cases h
    · cases h
  split at h
  · unfold equalsLexeme at h
    split at h <;> cases h
  split at h
  · cases h
  split at h
  · unfold stringLexeme at h
    split at h <;> cases h
  split at h
  · unfold numberLexeme at h
    simp only at h
    split at h
    · split at h <;> cases h
    · cases h
  split at h
  · unfold wordLexeme at h
    simp only at h
    split at h <;> cases h
  · cases h

/-- **Texts have tokens that end.** -/
theorem ended_of_scanFrom {p : Position} {waiting : Option String} {text : List Char}
    (h : scanFrom p waiting text = .ok ts) : Ended ts := by
  fun_induction scanFrom p waiting text generalizing ts with
  | case1 p waiting =>
    cases h
    exact ⟨_, rfl, .refl _⟩
  | case2 => cases h
  | case3 | case4 | case5 =>
    rename_i ih
    exact ih h
  | case6 p waiting c text more next kind word hread =>
    rename_i ih
    cases htokens : scanFrom next none (text.drop more) with
    | error error =>
      rw [htokens] at h
      cases h
    | ok tokens =>
      rw [htokens] at h
      cases h
      exact (ih htokens).cons (ne_endOfFile_of_readLexeme hread)

theorem ended_of_scan {text : String} (h : scan text = .ok ts) : Ended ts :=
  ended_of_scanFrom h

/-! ### What the reader accepts -/

/-- The settled grammar gives a file one meaning. -/
theorem IsFile.unique {u u' : SourceUnit} (h : IsFile true ts u) (h' : IsFile true ts u') :
    u = u' := by
  have hread := h.read
  rw [h'.read] at hread
  exact (Except.ok.inj hread).symm

theorem IsFile.free {u : SourceUnit} (h : IsFile true ts u) : IsFile false ts u := by
  obtain ⟨last, hlast, h⟩ := h
  exact ⟨last, hlast, h.free⟩

theorem IsFile.settle {u : SourceUnit} (h : IsFile false ts u) : ∃ u', IsFile true ts u' := by
  obtain ⟨last, hlast, h⟩ := h
  obtain ⟨is, ds, h⟩ := h.settle
  exact ⟨⟨is, ds⟩, last, hlast, h⟩

theorem parse_eq_ok_iff {text : String} {u : SourceUnit} :
    SourceUnit.parse text = .ok u ↔ ∃ ts, scan text = .ok ts ∧ IsFile true ts u := by
  rw [SourceUnit.parse]
  constructor
  · intro h
    split at h
    · next ts hscan => exact ⟨ts, hscan, isFile_of_read h (ended_of_scan hscan)⟩
    · cases h
  · rintro ⟨ts, hscan, h⟩
    rw [hscan]
    exact h.read

/-- **Files are what the grammar derives**, for tokens that end and for texts: what the reader
accepts is what the grammar derives in some way, and what it returns is the one meaning of the
settled derivations, which are derivations of the grammar. -/
theorem reads_exactly_files :
    (∀ ts, Ended ts → ∀ u, SourceUnit.ofTokens ts = .ok u ↔ IsFile true ts u) ∧
    (∀ text u, SourceUnit.parse text = .ok u ↔ ∃ ts, scan text = .ok ts ∧ IsFile true ts u) ∧
    (∀ ts u u', IsFile true ts u → IsFile true ts u' → u = u') ∧
    (∀ ts u, IsFile true ts u → IsFile false ts u) ∧
    (∀ ts u, IsFile false ts u → ∃ u', IsFile true ts u') := by
  refine ⟨fun ts hts u => ?_, fun text u => ?_, fun ts u u' h h' => ?_, fun ts u h => ?_,
    fun ts u h => ?_⟩
  · constructor
    · intro h
      exact isFile_of_read h hts
    · intro h
      exact h.read
  · exact parse_eq_ok_iff
  · exact h.unique h'
  · exact h.free
  · exact h.settle

/-- The tokens of `type A = () => B[]` -/
def arrowTokens : List Token :=
  [⟨.keyword .typeWord, "type", ⟨1, 1⟩, none⟩, ⟨.identifier, "A", ⟨1, 6⟩, none⟩,
    ⟨.symbol .equals, "=", ⟨1, 8⟩, none⟩, ⟨.symbol .parenOpen, "(", ⟨1, 10⟩, none⟩,
    ⟨.symbol .parenClose, ")", ⟨1, 11⟩, none⟩, ⟨.symbol .arrow, "=>", ⟨1, 13⟩, none⟩,
    ⟨.identifier, "B", ⟨1, 16⟩, none⟩, ⟨.symbol .bracketOpen, "[", ⟨1, 17⟩, none⟩,
    ⟨.symbol .bracketClose, "]", ⟨1, 18⟩, none⟩, Token.endAt ⟨1, 19⟩]

/-- A file that declares `A` to be the given type. -/
def arrowUnit (e : TypeExpr) : SourceUnit := ⟨[], [.typeAlias ⟨"A", e, none, ⟨1, 6⟩⟩]⟩

/-- A function with an array as its result. -/
def functionToArray : TypeExpr := .function [] (.array (.reference "B" [] ⟨1, 16⟩))

/-- An array of functions. -/
def arrayOfFunctions : TypeExpr := .array (.function [] (.reference "B" [] ⟨1, 16⟩))

theorem scan_arrowText : scan "type A = () => B[]" = .ok arrowTokens :=
  toOption_eq_some.mp (by decide +kernel)

theorem ofTokens_arrowTokens :
    SourceUnit.ofTokens arrowTokens = .ok (arrowUnit functionToArray) :=
  rfl

theorem ended_arrowTokens : Ended arrowTokens := ended_of_scan scan_arrowText

theorem reads_exactly_files_arrowTokens :
    Ended arrowTokens ∧ IsFile true arrowTokens (arrowUnit functionToArray) ∧
      IsFile false arrowTokens (arrowUnit functionToArray) ∧
      (∀ u, IsFile true arrowTokens u → arrowUnit functionToArray = u) ∧
      ∃ u, IsFile true arrowTokens u := by
  obtain ⟨hread, -, hunique, hfree, hsettle⟩ := reads_exactly_files
  have hfile : IsFile true arrowTokens (arrowUnit functionToArray) :=
    (hread arrowTokens ended_arrowTokens _).mp ofTokens_arrowTokens
  exact ⟨ended_arrowTokens, hfile, hfree _ _ hfile, fun u => hunique _ _ u hfile,
    hsettle _ _ (hfree _ _ hfile)⟩

/-- **The grammar as it is written is ambiguous**: a suffix behind a function type belongs to its
result or to all of it. The reader decides for the former. -/
theorem ambiguous_arrowTokens :
    SourceUnit.parse "type A = () => B[]" = .ok (arrowUnit functionToArray) ∧
      scan "type A = () => B[]" = .ok arrowTokens ∧
      IsFile false arrowTokens (arrowUnit functionToArray) ∧
      IsFile false arrowTokens (arrowUnit arrayOfFunctions) ∧
      arrowUnit functionToArray ≠ arrowUnit arrayOfFunctions := by
  -- the type of `B` ends before the suffix, which is left for the function
  have hresult : Derives false .type (arrowTokens.drop 6) (.reference "B" [] ⟨1, 16⟩)
      (arrowTokens.drop 7) := by
    have hname : Derives false .primary (arrowTokens.drop 6) (.reference "B" [] ⟨1, 16⟩)
        (arrowTokens.drop 7) :=
      .reference (by decide +kernel) (by decide) (.mk rfl .nil) .noArguments
    exact .type .absent (.suffixed hname .nil) .noAlternative
  have hfunction : Derives false .primary (arrowTokens.drop 3)
      (.function [] (.reference "B" [] ⟨1, 16⟩)) (arrowTokens.drop 7) :=
    .freeArrow rfl (.arrow (.parameters rfl .noEntry rfl) rfl hresult)
  have harray : Derives false .type (arrowTokens.drop 3) arrayOfFunctions (arrowTokens.drop 9) :=
    .type .absent (.suffixed hfunction (.cons rfl rfl .nil)) .noAlternative
  refine ⟨?_, scan_arrowText, (isFile_of_read ofTokens_arrowTokens ended_arrowTokens).free, ?_, ?_⟩
  · rw [SourceUnit.parse, scan_arrowText]
    exact ofTokens_arrowTokens
  · refine ⟨Token.endAt ⟨1, 19⟩, rfl, ?_⟩
    exact .declaring .nil (.typeAlias rfl rfl rfl harray .none) .nil
  · intro h
    cases h

end Grammar

end DeclaredSchema
