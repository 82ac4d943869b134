import DeclaredSchema.Proofs.Declaration.File
import DeclaredSchema.Proofs.Declaration.Refusal
import Mathlib.Tactic.ByContra

/-!
# The tokens before a refused one can be completed

When the reader of declaration files refuses a token, the tokens before it are the front of a file
that is read. So it refuses no later than at the first token with which no file goes on, however
deep it is in types, members and lists at that place.

The readers of the top level are put together like those of types. The end is different: a file is
read up to the end of its tokens, and phrases of the grammar as it is written are settled before
they are read.

## Main definitions

* `Items.phrase` — the items of a file
* `Viable` — tokens with which a file can start

## Main results

* `items_breaks` — the reader of items refuses in time
* `parse_refuses_in_time` — so does the reader of texts
-/

namespace DeclaredSchema

open OfTokens

namespace Grammar

variable {t : Token} {ts us rest : List Token} {n : Nat} {closing : Symbol} {doc : Option String}
  {e : ParseError} {is : List Import} {ds : List Declaration}

/-! ### Lists of entries -/

section Lists

variable {α : Type} {P : List Token → α → List Token → Prop}
  {one : List Token → Outcome (α × List Token)}
  {many : Nat → List Token → Outcome (List α × List Token)}

instance : HasPhrase (Of (Listed P)) := ⟨[], fun _ => ⟨_, .nil⟩⟩

/-- **Lists are refused in time**, if their entries are. -/
theorem IsListReader.respects [HasPhrase (Of P)] (h : IsListReader closing one many)
    (hone : ∀ {ts}, Respects (Of P) ts (one ts)) : Respects (Of (Listed P)) ts (many n ts) := by
  have hnil : ∀ ts, Of (Listed P) ts ts := fun _ => ⟨_, .nil⟩
  induction n generalizing ts with
  | zero =>
    rw [h.zero]
    exact .nothing hnil
  | succ n ih =>
    rw [h.succ]
    split
    · exact .nothing hnil
    · refine .mono (hone.bind fun _ _ _ => respects_separator
        (fun _ => ih.bind fun _ _ _ => .pure) fun us hclose => ?_) ?_
      · rw [h.of_close (of_decide_eq_true hclose), ok_bind]
        exact .pure
      · rintro _ _ ⟨_, ⟨_, hx⟩, rfl | ⟨_, ⟨_, hcomma, rfl⟩, _, ⟨_, hmore⟩, rfl⟩⟩
        · exact ⟨_, .last hx⟩
        · exact ⟨_, .more hx hcomma hmore⟩

end Lists

/-! ### Imports -/

theorem stands_closing (ts : List Token) : Stands Closing ts (skip .semicolon ts) := by
  refine .mono (stands_accept .semicolon ts) ?_
  rintro _ _ ⟨_, hsemicolon⟩
  cases hsemicolon with
  | absent => exact .none
  | present ht => exact .semicolon ht

instance : HasPhrase Closing := ⟨[], fun _ => .none⟩

instance : HasPhrase (Of Specifier) := ⟨[sampleToken .identifier], fun _ => ⟨_, .plain rfl⟩⟩

instance : HasPhrase (Of Clause) := ⟨[sampleToken .identifier], fun _ => ⟨_, .single rfl⟩⟩

/-- The word `as`, which is no keyword. -/
def IsAs (t : Token) : Prop := t.kind = .identifier ∧ t.text = "as"

instance : HasPhrase (One IsAs) :=
  ⟨[⟨.identifier, "as", .start, none⟩], fun _ => ⟨_, ⟨rfl, rfl⟩, rfl⟩⟩

theorem respects_importedName : Respects (Of Specifier) ts (importedName ts) := by
  unfold importedName
  refine .mono (respects_expectName.bind (Q := Either Eq (Relation.Comp (One IsAs)
    (One fun t => t.kind.isName = true))) fun _ us _ => ?_) ?_
  · simp only
    split
    · next has =>
      obtain ⟨hword, htext⟩ := Bool.and_eq_true_iff.mp has
      obtain ⟨word, vs, rfl, hkind⟩ := exists_cons_of_sees hword
      have hinner : word.kind ≠ .endOfFile := ne_endOfFile hkind
      have has : IsAs word := ⟨hkind, of_decide_eq_true htext⟩
      refine .mono ((stands_one has hinner).respects
        (respects_expectName.bind fun _ _ _ => .pure)) ?_
      rintro _ _ ⟨_, hword, _, hname, rfl⟩
      exact .inr ⟨_, hword, hname⟩
    · exact Respects.pure.mono .inl
  · rintro _ _ ⟨_, ⟨_, ht, rfl⟩, rfl | ⟨_, ⟨_, ⟨hword, htext⟩, rfl⟩, _, ht', rfl⟩⟩
    · exact ⟨_, .plain ht⟩
    · exact ⟨_, .renamed ht hword htext ht'⟩

/-- What stands behind `*` in a clause. -/
theorem respects_namespaceImport :
    Respects (Relation.Comp (One IsAs) (One fun t => t.kind = .identifier)) ts (do
      let (word, rest) ← expect [.identifier] ts
      if word.text ≠ "as" then refuse ts .expectedAs
      else do
        let (name, rest) ← expect [.identifier] rest
        return ([name.text], rest)) := by
  cases hexpect : expect [.identifier] ts with
  | error error => exact respects_of_expect_eq_error hexpect
  | ok found =>
    obtain ⟨word, us⟩ := found
    obtain ⟨rfl, hkind⟩ := expect_kind_eq_ok hexpect
    rw [ok_bind]
    simp only
    split
    · exact .refuse
    · next htext =>
      have has : IsAs word := ⟨hkind, Decidable.not_not.mp htext⟩
      refine (stands_one has (ne_endOfFile hkind)).respects
        (.mono (respects_expect.bind fun _ _ _ => .pure) ?_)
      rintro _ _ ⟨_, h, rfl⟩
      exact h

theorem respects_importClause : Respects (Of Clause) ts (importClause ts) := by
  unfold importClause
  split
  · next hopen =>
    obtain ⟨t, us, rfl, ht⟩ := exists_cons_of_sees hopen
    refine .mono ((stands_token ht).respects
      ((importedNames_isListReader.respects respects_importedName).bind fun _ _ _ =>
        respects_expectMark.bind fun _ _ _ => .pure)) ?_
    rintro _ _ ⟨_, ⟨_, hopen, rfl⟩, _, ⟨_, h⟩, _, ⟨_, hclose, rfl⟩, rfl⟩
    exact ⟨_, .names hopen h hclose⟩
  split
  · next hstar =>
    obtain ⟨t, us, rfl, ht⟩ := exists_cons_of_sees hstar
    refine .mono ((stands_token ht).respects respects_namespaceImport) ?_
    rintro _ _ ⟨_, ⟨_, hstar, rfl⟩, _, ⟨_, ⟨hword, htext⟩, rfl⟩, _, ht, rfl⟩
    exact ⟨_, .all hstar hword htext ht⟩
  · refine .mono (respects_expect.bind fun _ _ _ => .pure) ?_
    rintro _ _ ⟨_, ⟨_, ht, rfl⟩, rfl⟩
    exact ⟨_, .single ht⟩

theorem respects_importDeclaration : Respects (Of Imports) ts (importDeclaration ts) := by
  unfold importDeclaration
  refine .mono (respects_expect.bind fun _ us _ => Stands.respects
    (P := Of (Optionally (.keyword .typeWord))) ?_
    (respects_importClause.bind fun _ _ _ => respects_expect.bind fun _ _ _ =>
      respects_expect.bind fun _ vs _ => (stands_closing vs).ok)) ?_
  · split
    · next htype =>
      obtain ⟨hmark, -⟩ := Bool.and_eq_true_iff.mp htype
      obtain ⟨t, vs, rfl, ht⟩ := exists_cons_of_sees hmark
      refine .mono (stands_token ht) ?_
      rintro _ _ ⟨_, ht, rfl⟩
      exact ⟨_, .present ht⟩
    · refine .mono (.refl us) ?_
      rintro _ _ rfl
      exact ⟨_, .absent⟩
  · rintro _ _ ⟨_, ⟨_, hword, rfl⟩, _, ⟨_, htype⟩, _, ⟨_, hclause⟩, _, ⟨_, horigin, rfl⟩, _,
      ⟨_, hsource, rfl⟩, hclosing⟩
    exact ⟨_, .mk hword htype hclause horigin hsource hclosing⟩

/-! ### Declarations -/

instance : HasPhrase (Of FurtherBases) := ⟨[], fun _ => ⟨_, .nil⟩⟩

instance : HasPhrase (Of Bases) := ⟨[], fun _ => ⟨_, .none⟩⟩

instance : HasPhrase (Of Initializer) := ⟨[], fun _ => ⟨_, .none⟩⟩

instance : HasPhrase (Of EnumMember) :=
  ⟨[sampleToken .identifier], fun _ => ⟨_, .mk (.inl rfl) .none⟩⟩

instance : HasPhrase (Of (Declares false doc)) :=
  ⟨[sampleToken (.keyword .enumWord), sampleToken .identifier, sampleToken (.symbol .braceOpen),
    sampleToken (.symbol .braceClose)], fun _ => ⟨_, .enumeration .absent rfl rfl rfl .nil rfl⟩⟩

theorem respects_furtherBases : Respects (Of FurtherBases) ts (furtherBases n ts) := by
  have hnil : ∀ ts, Of FurtherBases ts ts := fun _ => ⟨_, .nil⟩
  induction n generalizing ts with
  | zero => exact .nothing hnil
  | succ n ih =>
    rw [furtherBases]
    split
    · next hcomma =>
      obtain ⟨t, us, rfl, ht⟩ := exists_cons_of_sees hcomma
      refine .mono ((stands_token ht).respects (respects_qualifiedName.bind fun _ _ _ =>
        ih.bind fun _ _ _ => .pure)) ?_
      rintro _ _ ⟨_, ⟨_, ht, rfl⟩, _, ⟨_, h⟩, _, ⟨_, h'⟩, rfl⟩
      exact ⟨_, .cons ht h h'⟩
    · exact .nothing hnil

theorem respects_baseNames : Respects (Of Bases) ts (baseNames ts) := by
  unfold baseNames
  split
  · next hword =>
    obtain ⟨t, us, rfl, ht⟩ := exists_cons_of_sees hword
    refine .mono ((stands_token ht).respects (respects_qualifiedName.bind fun _ _ _ =>
      respects_furtherBases.bind (Q := Eq) fun _ _ _ => ?_)) ?_
    · simp only
      split
      · exact .unsupported
      · exact .pure
    · rintro _ _ ⟨_, ⟨_, ht, rfl⟩, _, ⟨_, h⟩, _, ⟨_, h'⟩, rfl⟩
      exact ⟨_, .some ht h h'⟩
  · exact .nothing fun _ => ⟨_, .none⟩

theorem respects_interface :
    Respects (Of (Declares false doc)) ts (interfaceDeclaration doc ts) := by
  unfold interfaceDeclaration
  refine .mono (respects_expect.bind fun _ _ _ => respects_expect.bind
    (Q := Relation.Comp (Of Bases) (Relation.Comp (Nonterminal.phrase .body) Eq))
    fun _ _ _ => ?_) ?_
  · simp only
    split
    · exact .unsupported
    · exact respects_baseNames.bind fun _ _ _ => (inTime _).body.bind fun _ _ _ => .pure
  · rintro _ _ ⟨_, ⟨_, hword, rfl⟩, _, ⟨_, hname, rfl⟩, _, ⟨_, hbases⟩, _, ⟨_, h⟩, rfl⟩
    exact ⟨_, .interface hword hname hbases h⟩

theorem respects_typeAlias :
    Respects (Of (Declares false doc)) ts (aliasDeclaration doc ts) := by
  unfold aliasDeclaration
  refine .mono (respects_expect.bind fun _ _ _ => respects_expect.bind
    (Q := Relation.Comp (One fun t => t.kind = .symbol .equals)
      (Relation.Comp (Nonterminal.phrase .type) Closing)) fun _ _ _ => ?_) ?_
  · simp only
    split
    · exact .unsupported
    · exact respects_expectMark.bind fun _ _ _ => (inTime _).type.bind fun _ us _ =>
        (stands_closing us).ok
  · rintro _ _ ⟨_, ⟨_, hword, rfl⟩, _, ⟨_, hname, rfl⟩, _, ⟨_, hequals, rfl⟩, _, ⟨_, h⟩, hclosing⟩
    exact ⟨_, .typeAlias hword hname hequals h hclosing⟩

theorem respects_initializer : Respects (Of Initializer) ts (initializer ts) := by
  unfold initializer
  split
  · next hequals =>
    obtain ⟨t, us, rfl, ht⟩ := exists_cons_of_sees hequals
    rw [List.tail_cons]
    by_cases hstring : sees .string us = true
    · obtain ⟨t', vs, rfl, ht'⟩ := exists_cons_of_sees hstring
      simp only [if_pos hstring]
      refine .mono ((stands_token ht).comp (stands_token ht')).ok ?_
      rintro _ _ ⟨_, ⟨_, hequals, rfl⟩, _, ht, rfl⟩
      exact ⟨_, .string hequals ht⟩
    · simp only [if_neg hstring]
      refine .mono ((stands_token ht).respects respects_number.map) ?_
      rintro _ _ ⟨_, ⟨_, hequals, rfl⟩, _, h⟩
      exact ⟨_, .number hequals h⟩
  · exact .nothing fun _ => ⟨_, .none⟩

theorem respects_entryValue {name : Token} : Respects (Relation.Comp (Of Initializer) Eq) ts (do
    let (value, ts) ← initializer ts
    return ((⟨name.text, value, name.doc⟩ : EnumEntry), ts)) :=
  respects_initializer.bind fun _ _ _ => .pure

theorem respects_enumMember : Respects (Of EnumMember) ts (enumMember ts) := by
  have hmember : ∀ {ts rest}, Relation.Comp (One fun t => t.kind.isName = true ∨ t.kind = .string)
      (Relation.Comp (Of Initializer) Eq) ts rest → Of EnumMember ts rest := by
    rintro _ _ ⟨_, ⟨_, ht, rfl⟩, _, ⟨_, h⟩, rfl⟩
    exact ⟨_, .mk ht h⟩
  unfold enumMember
  by_cases hstring : sees .string ts = true
  · obtain ⟨t, us, rfl, ht⟩ := exists_cons_of_sees hstring
    simp only [if_pos hstring, pure_bind]
    exact .mono ((stands_one (.inr ht) (ne_endOfFile ht)).respects respects_entryValue) hmember
  · simp only [if_neg hstring]
    refine .mono (respects_expectName.bind fun _ _ _ => respects_entryValue) ?_
    rintro _ _ ⟨_, ⟨t, ht, rfl⟩, h⟩
    exact hmember ⟨_, ⟨t, .inl ht, rfl⟩, h⟩

/-- An enumeration behind the word `const`, or without it. -/
def Enumerated : PhraseClass := Relation.Comp (One fun t => t.kind = .keyword .enumWord)
  (Relation.Comp (One fun t => t.kind = .identifier)
    (Relation.Comp (One fun t => t.kind = .symbol .braceOpen)
      (Relation.Comp (Of (Listed EnumMember)) (One fun t => t.kind = .symbol .braceClose))))

theorem respects_enumeration : Respects Enumerated ts (enumDeclaration doc ts) := by
  unfold enumDeclaration
  refine .mono (respects_expect.bind fun _ _ _ => respects_expect.bind fun _ _ _ =>
    respects_expectMark.bind fun _ _ _ =>
      (enumEntries_isListReader.respects respects_enumMember).bind fun _ _ _ =>
        respects_expectMark.bind fun _ _ _ => .pure) ?_
  rintro _ _ ⟨_, hword, _, hname, _, hopen, _, h, _, hclose, rfl⟩
  exact ⟨_, hword, _, hname, _, hopen, _, h, hclose⟩

theorem declares_of_enumeration {fixed : Bool}
    (hconst : Optionally (.keyword .constWord) ts fixed us) (h : Enumerated us rest) :
    Of (Declares false doc) ts rest := by
  obtain ⟨_, ⟨_, hword, rfl⟩, _, ⟨_, hname, rfl⟩, _, ⟨_, hopen, rfl⟩, _, ⟨_, h⟩, _, hclose, rfl⟩ :=
    h
  exact ⟨_, .enumeration hconst hword hname hopen h hclose⟩

theorem respects_declaration : Respects (Of (Declares false doc)) ts (declaration doc ts) := by
  unfold declaration
  split
  · exact respects_interface
  split
  · exact respects_typeAlias
  split
  · exact respects_enumeration.mono fun h => declares_of_enumeration .absent h
  split
  · next hconst =>
    obtain ⟨hfixed, -⟩ := Bool.and_eq_true_iff.mp hconst
    obtain ⟨t, us, rfl, ht⟩ := exists_cons_of_sees hfixed
    refine .mono ((stands_token ht).respects respects_enumeration) ?_
    rintro _ _ ⟨_, ⟨_, ht, rfl⟩, h⟩
    exact declares_of_enumeration (.present ht) h
  · exact .refuse

/-! ### Items -/

/-- Modifiers and a declaration. What it is documented with does not matter. -/
def Declared : PhraseClass := Relation.Comp Modifiers (Of (Declares false none))

instance : HasPhrase Modifiers := ⟨[], fun _ => .nil⟩

instance : HasPhrase (Of Imports) :=
  ⟨[sampleToken (.keyword .importWord), sampleToken .identifier, sampleToken (.keyword .fromWord),
    sampleToken .string], fun _ => ⟨_, .mk rfl .absent (.single rfl) rfl rfl .none⟩⟩

/-- One item of the top level. -/
def OneItem : PhraseClass :=
  Either (One fun t => t.kind = .symbol .semicolon) (Either (Of Imports) Declared)

instance : HasPhrase OneItem := inferInstanceAs (HasPhrase (Either _ _))

theorem Declares.redocument {d : Declaration} (h : Declares false doc ts d rest)
    (doc' : Option String) : Of (Declares false doc') ts rest := by
  cases h with
  | interface hword hname hbases h => exact ⟨_, .interface hword hname hbases h⟩
  | typeAlias hword hname hequals h hclosing =>
    exact ⟨_, .typeAlias hword hname hequals h hclosing⟩
  | enumeration hconst hword hname hopen h hclose =>
    exact ⟨_, .enumeration hconst hword hname hopen h hclose⟩

theorem Declares.exists_cons {d : Declaration} (h : Declares false doc ts d rest) :
    ∃ t us, ts = t :: us := by
  cases h with
  | interface => exact ⟨_, _, rfl⟩
  | typeAlias => exact ⟨_, _, rfl⟩
  | enumeration hconst => cases hconst <;> exact ⟨_, _, rfl⟩

theorem stands_afterModifiers (ts : List Token) : Stands Modifiers ts (afterModifiers ts) := by
  induction ts with
  | nil => exact (Stands.refl []).mono fun h => h ▸ .nil
  | cons t ts ih =>
    rw [afterModifiers, List.dropWhile_cons]
    split
    · next ht =>
      have ht : t.kind = .keyword .exportWord ∨ t.kind = .keyword .declareWord := by simpa using ht
      have hinner : t.kind ≠ .endOfFile := ht.elim ne_endOfFile ne_endOfFile
      refine .mono ((stands_one (p := fun t => t.kind = .keyword .exportWord ∨
        t.kind = .keyword .declareWord) ht hinner).comp ih) ?_
      rintro _ _ ⟨_, ⟨_, ht, rfl⟩, h⟩
      exact .cons ht h
    · exact (Stands.refl _).mono fun h => h ▸ .nil

theorem respects_item : Respects OneItem ts (item ts) := by
  rw [item_eq]
  split
  · next hmark =>
    obtain ⟨t, us, rfl, ht⟩ := exists_cons_of_sees hmark
    exact (stands_token ht).ok.mono .inl
  split
  · exact respects_importDeclaration.map.mono fun h => .inr (.inl h)
  · refine .mono ((stands_afterModifiers ts).respects respects_declaration.map) ?_
    rintro _ _ ⟨_, hmodifiers, _, h⟩
    exact .inr (.inr ⟨_, hmodifiers, h.redocument none⟩)

/-! ### Files -/

/-- The items of a file. -/
def Items.phrase : PhraseClass := fun ts rest => ∃ is ds, Items false ts is ds rest

instance : HasPhrase Items.phrase := ⟨[], fun _ => ⟨_, _, .nil⟩⟩

theorem Items.of_oneItem (h : Relation.Comp OneItem Items.phrase ts rest) :
    Items.phrase ts rest := by
  obtain ⟨us, ⟨_, ht, rfl⟩ | ⟨_, h⟩ | ⟨vs, hmodifiers, _, h⟩, is, ds, h'⟩ := h
  · exact ⟨_, _, .blank ht h'⟩
  · exact ⟨_, _, .importing h h'⟩
  · -- the documentation is that of the first token, which may be a modifier
    obtain ⟨first, ts', rfl⟩ : ∃ first ts', ts = first :: ts' := by
      cases hmodifiers with
      | nil => exact h.exists_cons
      | cons => exact ⟨_, _, rfl⟩
    obtain ⟨_, h⟩ := h.redocument first.doc
    exact ⟨_, _, .declaring hmodifiers h h'⟩

/-- **The reader of items refuses in time.** -/
theorem items_breaks (h : items n ts = .error (.parse e)) : Breaks Items.phrase ts e := by
  induction n generalizing ts with
  | zero => cases h
  | succ n ih =>
    rw [items] at h
    split at h
    · cases h
    rcases bind_eq_error.mp h with hitem | ⟨⟨x, us⟩, hitem, h⟩
    · exact (respects_item.error hitem).comp.mono Items.of_oneItem
    · rcases bind_eq_error.mp h with hmore | ⟨more, -, h⟩
      · exact ((respects_item.ok hitem).breaks (ih hmore)).mono Items.of_oneItem
      · cases h

/-- A file can start with these tokens. -/
def Viable (ts : List Token) : Prop :=
  ∃ more u, Ended (ts ++ more) ∧ SourceUnit.ofTokens (ts ++ more) = .ok u

theorem Viable.take (h : Viable ts) (k : Nat) : Viable (ts.take k) := by
  obtain ⟨more, u, h⟩ := h
  refine ⟨ts.drop k ++ more, u, ?_⟩
  rwa [← List.append_assoc, List.take_append_drop]

theorem Items.consumes (h : Items true ts is ds rest) : Consumes 0 ts rest := by
  induction h with
  | nil => exact .refl _
  | blank ht _ ih => exact ((consumes_token ht).trans ih).mono (Nat.zero_le _)
  | importing h _ ih => exact (h.consumes.trans ih).mono (Nat.zero_le _)
  | declaring hmodifiers h _ ih =>
    exact ((hmodifiers.consumes.trans h.consumes).trans ih).mono (Nat.zero_le _)

theorem IsFile.ended {u : SourceUnit} (h : IsFile true ts u) : Ended ts := by
  obtain ⟨last, hlast, h⟩ := h
  exact ⟨last, hlast, h.consumes⟩

/-- Tokens with which some phrase of items goes on are the start of a file. -/
theorem viable_of_items {more : List Token}
    (h : ∀ other, Items.phrase (ts ++ (more ++ other)) other) : Viable ts := by
  obtain ⟨is, ds, h⟩ := h [sampleToken .endOfFile]
  have hfree : IsFile false (ts ++ (more ++ [sampleToken .endOfFile])) ⟨is, ds⟩ := ⟨_, rfl, h⟩
  obtain ⟨u, hfile⟩ := hfree.settle
  exact ⟨_, u, hfile.ended, hfile.read⟩

theorem exists_token_of_ended {front back : List Token} (h : Ended (front ++ back))
    (hfront : ∀ t ∈ front, t.kind ≠ .endOfFile) : ∃ t after, back = t :: after := by
  cases back with
  | cons t after => exact ⟨t, after, rfl⟩
  | nil =>
    obtain ⟨last, hlast, body, hbody, -⟩ := h
    rw [List.append_nil] at hbody
    exact absurd hlast (hfront last (hbody ▸ List.mem_append_right _ (List.mem_singleton_self _)))

/-- **The reader of texts refuses in time.** What it refuses is a token of the text, maybe its end;
a file can start with the tokens before it; and whenever no file starts with the first `k` tokens,
the refused one is among them. -/
theorem parse_refuses_in_time {text : String} (hscan : scan text = .ok ts)
    (hparse : SourceUnit.parse text = .error (.parse e)) :
    ∃ before t after, ts = before ++ t :: after ∧ e.position = t.position ∧ Viable before ∧
      ∀ k, ¬ Viable (ts.take k) → before.length < k := by
  have hitems : items ts.length ts = .error (.parse e) := by
    simp only [SourceUnit.parse, hscan] at hparse
    rcases bind_eq_error.mp hparse with hitems | ⟨found, -, h⟩
    · exact hitems
    · cases h
  obtain ⟨before, back, rfl, hinner, hplace, more, h⟩ := items_breaks hitems
  obtain ⟨t, after, rfl⟩ := exists_token_of_ended (ended_of_scan hscan) hinner
  have hviable : Viable before := viable_of_items h
  refine ⟨before, t, after, rfl, hplace, hviable, fun k hk => ?_⟩
  by_contra hlt
  rw [List.take_append_of_le_length (Nat.le_of_not_lt hlt)] at hk
  exact hk (hviable.take k)

/-- A file that stops inside of a member, where a tuple would start. -/
def tupleText : String := "type A = \x7b b: ["

/-- The tokens of the file. -/
def tupleTokens : List Token :=
  [⟨.keyword .typeWord, "type", ⟨1, 1⟩, none⟩, ⟨.identifier, "A", ⟨1, 6⟩, none⟩,
    ⟨.symbol .equals, "=", ⟨1, 8⟩, none⟩, ⟨.symbol .braceOpen, "\x7b", ⟨1, 10⟩, none⟩,
    ⟨.identifier, "b", ⟨1, 12⟩, none⟩, ⟨.symbol .colon, ":", ⟨1, 13⟩, none⟩,
    ⟨.symbol .bracketOpen, "[", ⟨1, 15⟩, none⟩, Token.endAt ⟨1, 16⟩]

theorem parse_refuses_in_time_tupleTokens :
    scan tupleText = .ok tupleTokens ∧
      SourceUnit.parse tupleText = .error (.parse ⟨.unsupported .tuple, ⟨1, 15⟩⟩) ∧
      ∃ before t after, tupleTokens = before ++ t :: after ∧ ⟨1, 15⟩ = t.position ∧ Viable before ∧
        ∀ k, ¬ Viable (tupleTokens.take k) → before.length < k := by
  have hscan : scan tupleText = .ok tupleTokens := by cbv
  have hparse : SourceUnit.parse tupleText =
      .error (.parse ⟨.unsupported .tuple, ⟨1, 15⟩⟩) := by
    simp only [SourceUnit.parse, hscan]
    rfl
  exact ⟨hscan, hparse, parse_refuses_in_time hscan hparse⟩

end Grammar

end DeclaredSchema
