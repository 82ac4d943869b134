import DeclaredSchema.Proofs.Declaration.File
import DeclaredSchema.Proofs.Declaration.Writing

/-!
# Files are read back

A file that is written in any style is read as the same file, apart from the lines and columns in
it. So a text says what was meant by it: two files with one text are the same. Both stages are taken
back at once: the scan gives the words back, and the words are derived by the settled grammar, which
gives them one meaning.

An integer with too many digits is an exception. It can be written, but no text of a file with it is
read.

## Main results

* `exists_isFile_of_render` — the text of a file is a file of the grammar with the same meaning
* `parse_render` — reading is inverse to writing, in every style
* `unplaced_eq_of_render_eq` — two files with one text are the same
* `parse_integerUnit` — what happens above the limit on digits
-/

namespace DeclaredSchema

open OfTokens Lexical Rendering

namespace Grammar

variable {ts us rest : List Token}

/-! ### Lists at the top level -/

/-- Entries that are written one by one are written as a list. -/
theorem listed_of_shows {α : Type} {P : List Token → α → List Token → Prop}
    {wss : List (List Word)} {xs : List α}
    (h : List.Forall₂ (fun ws x => ∀ {ts rest}, Shows ws ts rest → P ts x rest) wss xs)
    (hs : Shows (joined .comma wss) ts rest) : Listed P ts xs rest := by
  induction h generalizing ts with
  | nil =>
    cases hs
    exact .nil
  | @cons ws x wss xs hx hmore ih =>
    obtain ⟨us, hws, hs⟩ := shows_append.mp hs
    cases hmore with
    | nil =>
      cases hs
      exact .last (hx hws)
    | cons hy hmore =>
      obtain ⟨t, us, rfl, ht, hs⟩ := exists_mark hs
      exact .more (hx hws) ht (ih hs)

theorem imports_of_shows {i : Import} (h : Shows i.words ts rest) : Imports ts i rest := by
  obtain ⟨word, us, rfl, hword, -, h⟩ := exists_keyword h
  obtain ⟨vs, hnames, hend⟩ := shows_append.mp h
  obtain ⟨opening, us, closing, rfl, hopen, hclose, hnames⟩ := exists_enclosed hnames
  obtain ⟨origin, vs, rfl, horigin, -, hend⟩ := exists_keyword hend
  obtain ⟨source, vs, rfl, hsource, htext, -, hend⟩ := hend.exists_cons
  obtain ⟨semicolon, vs, rfl, hsemicolon, hend⟩ := exists_mark hend
  cases hend
  have hlisted : Listed Specifier us i.names
      (closing :: origin :: source :: semicolon :: rest) := by
    refine listed_of_shows ?_ hnames
    rw [List.forall₂_map_left_iff, List.forall₂_same]
    intro name _ ts rest hs
    obtain ⟨t, us, rfl, hkind, rfl, -, hs⟩ := hs.exists_cons
    cases hs
    exact .plain (hkind ▸ isName_wordKind _)
  have himports := Imports.mk hword .absent (.names hopen hlisted hclose) horigin hsource
    (.semicolon hsemicolon)
  rwa [show source.text = i.source from htext] at himports

theorem furtherBases_of_shows {bases : List String} (hbases : ∀ base ∈ bases, IsQualified base)
    (h : Shows ((bases.map nameWords).flatMap (.mark .comma :: ·)) ts rest) :
    FurtherBases ts bases rest := by
  induction bases generalizing ts with
  | nil =>
    cases h
    exact .nil
  | cons base bases ih =>
    obtain ⟨hbase, hbases⟩ := List.forall_mem_cons.mp hbases
    obtain ⟨us, hfirst, hmore⟩ := shows_append.mp h
    obtain ⟨t, vs, rfl, ht, hfirst⟩ := exists_mark hfirst
    obtain ⟨-, -, -, -, -, hname⟩ := qualifiedName_of_shows hbase hfirst
    exact .cons ht hname (ih hbases hmore)

theorem bases_of_shows {bases : List String} (hbases : ∀ base ∈ bases, IsQualified base)
    (h : Shows (baseWords bases) ts rest) : Bases ts bases rest := by
  cases bases with
  | nil =>
    cases h
    exact .none
  | cons base bases =>
    obtain ⟨hbase, hbases⟩ := List.forall_mem_cons.mp hbases
    obtain ⟨word, us, rfl, hword, -, h⟩ := exists_keyword h
    obtain ⟨vs, hfirst, hmore⟩ := shows_append.mp h
    obtain ⟨-, -, -, -, -, hname⟩ := qualifiedName_of_shows hbase hfirst
    exact .some hword hname (furtherBases_of_shows hbases hmore)

theorem initializer_of_shows {x : EnumEntry} (hx : x.IsWritable) (hv : ∀ v ∈ x.value, v.IsReadable)
    (h : Shows (x.value.elim [] (.mark .equals :: literalWords ·)) ts rest) :
    Initializer ts x.value rest := by
  obtain ⟨name, value, doc⟩ := x
  cases value with
  | none =>
    cases h
    exact .none
  | some v =>
    obtain ⟨equals, us, rfl, hequals, h⟩ := exists_mark h
    obtain ⟨text, rfl⟩ | ⟨i, rfl⟩ := hx.2 v rfl
    · obtain ⟨t, us, rfl, hkind, rfl, -, h⟩ := h.exists_cons
      cases h
      exact .string hequals hkind
    · exact .number hequals (number_of_shows (hv _ rfl) h)

theorem enumMember_of_shows {isQuoted : Bool} {x : EnumEntry} (hx : x.IsWritable)
    (hv : ∀ v ∈ x.value, v.IsReadable) (h : Shows (x.words isQuoted) ts rest) :
    EnumMember ts x rest := by
  obtain ⟨t, us, rfl, hkind, htext, hdoc, h⟩ := exists_memberWord h
  have hmember := EnumMember.mk hkind (initializer_of_shows hx hv h)
  rwa [htext, hdoc, ← hx.1] at hmember

theorem enumMembers_of_shows {style : List Nat → MemberStyle} {path : List Nat}
    {members : List EnumEntry} (h : ∀ x ∈ members, x.IsWritable)
    (hreadable : ∀ x ∈ members, ∀ v ∈ x.value, v.IsReadable)
    (hs : Shows (joined .comma (enumEntryList style path 0 members)) ts rest) :
    Listed EnumMember ts members rest := by
  have hentries : ∀ i, List.Forall₂ (fun ws x => ∀ {ts rest}, Shows ws ts rest →
      EnumMember ts x rest) (enumEntryList style path i members) members := by
    clear hs
    induction members with
    | nil => exact fun _ => .nil
    | cons x members ih =>
      obtain ⟨hx, hmembers⟩ := List.forall_mem_cons.mp h
      obtain ⟨hv, hreadable⟩ := List.forall_mem_cons.mp hreadable
      exact fun i => .cons (enumMember_of_shows hx hv) (ih hmembers hreadable (i + 1))
  exact listed_of_shows (hentries 0) hs

/-! ### Declarations and files -/

section

variable {style : List Nat → MemberStyle} {path : List Nat}

/-- **A declaration is written**, without documentation. -/
theorem exists_declares {d : Declaration} (h : d.IsWritable) (hreadable : d.IsReadable)
    (hs : Shows (d.words style path) ts rest) :
    ∃ t us d', ts = t :: us ∧ t.doc = none ∧ Declares true none ts d' rest ∧
      d'.unplaced = d.unplaced := by
  cases d with
  | interface d =>
    obtain ⟨name, bases, members, doc, position⟩ := d
    obtain ⟨hname, rfl, hbases, hmembers⟩ := h
    obtain ⟨word, us, rfl, hword, hdoc, hs⟩ := exists_keyword hs
    obtain ⟨t, us, rfl, hkind, rfl, -, hs⟩ := hs.exists_cons
    obtain ⟨vs, hs, hbody⟩ := shows_append.mp hs
    obtain ⟨ms, hbody, hms⟩ := (writes_body hmembers hreadable).derives hbody
    have hkind := hkind.trans (wordKind_of_isIdentifier hname)
    refine ⟨word, _, _, rfl, hdoc, .interface hword hkind (bases_of_shows hbases hs) hbody, ?_⟩
    exact congrArg (fun ms => Declaration.interface ⟨t.text, bases, ms, none, .start⟩) hms
  | typeAlias d =>
    obtain ⟨name, e, doc, position⟩ := d
    obtain ⟨hname, rfl, he⟩ := h
    obtain ⟨word, us, rfl, hword, hdoc, hs⟩ := exists_keyword hs
    obtain ⟨t, us, rfl, hkind, rfl, -, hs⟩ := hs.exists_cons
    obtain ⟨equals, us, rfl, hequals, hs⟩ := exists_mark hs
    obtain ⟨vs, htype, hs⟩ := shows_append.mp hs
    obtain ⟨semicolon, us, rfl, hsemicolon, hs⟩ := exists_mark hs
    cases hs
    obtain ⟨e', htype, heq⟩ := (isDenoted he hreadable path).words.derives htype
    have hkind := hkind.trans (wordKind_of_isIdentifier hname)
    refine ⟨word, _, _, rfl, hdoc, .typeAlias hword hkind hequals htype (.semicolon hsemicolon), ?_⟩
    exact congrArg (fun e => Declaration.typeAlias ⟨t.text, e, none, .start⟩) heq
  | enumeration d =>
    obtain ⟨name, members, doc, position⟩ := d
    obtain ⟨hname, rfl, hmembers⟩ := h
    obtain ⟨word, us, rfl, hword, hdoc, hs⟩ := exists_keyword hs
    obtain ⟨t, us, rfl, hkind, rfl, -, hs⟩ := hs.exists_cons
    obtain ⟨opening, us, closing, rfl, hopen, hclose, hs⟩ := exists_enclosed hs
    have hkind := hkind.trans (wordKind_of_isIdentifier hname)
    have hlisted := enumMembers_of_shows hmembers hreadable hs
    exact ⟨word, _, _, rfl, hdoc, .enumeration .absent hword hkind hopen hlisted hclose, rfl⟩

theorem exists_items {ds : List Declaration} {last : Token} (h : ∀ d ∈ ds, d.IsWritable)
    (hreadable : ∀ d ∈ ds, d.IsReadable) (i : Nat)
    (hs : Shows (declarationList style i ds) ts [last]) :
    ∃ ds', Items true ts [] ds' [last] ∧
      ds'.map Declaration.unplaced = ds.map Declaration.unplaced := by
  induction ds generalizing ts i with
  | nil =>
    cases hs
    exact ⟨[], .nil, rfl⟩
  | cons d ds ih =>
    obtain ⟨hd, hds⟩ := List.forall_mem_cons.mp h
    obtain ⟨hd', hds'⟩ := List.forall_mem_cons.mp hreadable
    obtain ⟨us, hfirst, hmore⟩ := shows_append.mp hs
    obtain ⟨t, vs, d', rfl, hdoc, hdeclares, heq⟩ := exists_declares hd hd' hfirst
    obtain ⟨ds', hitems, hrest⟩ := ih hds hds' (i + 1) hmore
    rw [← hdoc] at hdeclares
    exact ⟨d' :: ds', .declaring .nil hdeclares hitems, congrArg₂ List.cons heq hrest⟩

theorem items_of_imports {is : List Import} {ds : List Declaration}
    (hs : Shows (is.flatMap Import.words) ts us) (h : Items true us [] ds rest) :
    Items true ts is ds rest := by
  induction is generalizing ts with
  | nil =>
    cases hs
    exact h
  | cons i is ih =>
    obtain ⟨vs, hfirst, hmore⟩ := shows_append.mp hs
    exact .importing (imports_of_shows hfirst) (ih hmore)

/-! ### Words that are whole -/

theorem isWhole_joined {symbol : Symbol} {wss : List (List Word)}
    (h : ∀ ws ∈ wss, ∀ w ∈ ws, w.IsWhole) : ∀ w ∈ joined symbol wss, w.IsWhole := by
  cases wss with
  | nil => exact List.forall_mem_nil _
  | cons ws wss =>
    obtain ⟨hws, hwss⟩ := List.forall_mem_cons.mp h
    refine List.forall_mem_append.mpr ⟨hws, fun w hw => ?_⟩
    obtain ⟨ws', hws', hw⟩ := List.mem_flatMap.mp hw
    exact List.forall_mem_cons.mpr ⟨trivial, hwss ws' hws'⟩ w hw

theorem isWhole_import {i : Import} (h : ∀ name ∈ i.names, IsIdentifier name) :
    ∀ w ∈ i.words, w.IsWhole := by
  have hnames : ∀ ws ∈ i.names.map (fun name => [Word.name name]), ∀ w ∈ ws, w.IsWhole := by
    rintro _ hws
    obtain ⟨name, hname, rfl⟩ := List.mem_map.mp hws
    exact List.forall_mem_singleton.mpr (h name hname).1
  refine List.forall_mem_cons.mpr ⟨isWord_keyword _, List.forall_mem_append.mpr
    ⟨forall_mem_enclosed (isWhole_joined hnames), ?_⟩⟩
  exact List.forall_mem_cons.mpr ⟨isWord_keyword _, by simp [Word.IsWhole]⟩

theorem isWhole_bases {bases : List String} (h : ∀ base ∈ bases, IsQualified base) :
    ∀ w ∈ baseWords bases, w.IsWhole := by
  unfold baseWords
  split
  · exact List.forall_mem_nil _
  · refine List.forall_mem_cons.mpr ⟨isWord_keyword _, isWhole_joined ?_⟩
    rintro _ hws
    obtain ⟨base, hbase, rfl⟩ := List.mem_map.mp hws
    exact isWhole_nameWords (h base hbase)

theorem isWhole_enumEntry (isQuoted : Bool) (x : EnumEntry) :
    ∀ w ∈ x.words isQuoted, w.IsWhole := by
  obtain ⟨name, value, doc⟩ := x
  refine List.forall_mem_cons.mpr ⟨isWhole_memberWord, ?_⟩
  cases value with
  | none => exact List.forall_mem_nil _
  | some v =>
    exact List.forall_mem_cons.mpr ⟨trivial, isWhole_literal v⟩

theorem isWhole_enumEntries (members : List EnumEntry) (i : Nat) :
    ∀ ws ∈ enumEntryList style path i members, ∀ w ∈ ws, w.IsWhole := by
  induction members generalizing i with
  | nil => exact List.forall_mem_nil _
  | cons x members ih => exact List.forall_mem_cons.mpr ⟨isWhole_enumEntry _ x, ih (i + 1)⟩

theorem isWhole_declaration {d : Declaration} (h : d.IsWritable) (hreadable : d.IsReadable) :
    ∀ w ∈ d.words style path, w.IsWhole := by
  cases d with
  | interface d =>
    obtain ⟨hname, -, hbases, hmembers⟩ := h
    refine List.forall_mem_cons.mpr ⟨isWord_keyword _, List.forall_mem_cons.mpr ⟨hname.1, ?_⟩⟩
    exact List.forall_mem_append.mpr ⟨isWhole_bases hbases, (writes_body hmembers hreadable).whole⟩
  | typeAlias d =>
    obtain ⟨hname, -, he⟩ := h
    refine List.forall_mem_cons.mpr ⟨isWord_keyword _, List.forall_mem_cons.mpr ⟨hname.1, ?_⟩⟩
    refine List.forall_mem_cons.mpr ⟨trivial, List.forall_mem_append.mpr ⟨?_, ?_⟩⟩
    · exact (isDenoted he hreadable path).words.whole
    · exact List.forall_mem_singleton.mpr trivial
  | enumeration d =>
    obtain ⟨hname, -, -⟩ := h
    refine List.forall_mem_cons.mpr ⟨isWord_keyword _, List.forall_mem_cons.mpr ⟨hname.1, ?_⟩⟩
    exact forall_mem_enclosed (isWhole_joined (isWhole_enumEntries d.members 0))

theorem isWhole_declarations {ds : List Declaration} (h : ∀ d ∈ ds, d.IsWritable)
    (hreadable : ∀ d ∈ ds, d.IsReadable) (i : Nat) :
    ∀ w ∈ declarationList style i ds, w.IsWhole := by
  induction ds generalizing i with
  | nil => exact List.forall_mem_nil _
  | cons d ds ih =>
    obtain ⟨hd, hds⟩ := List.forall_mem_cons.mp h
    obtain ⟨hd', hds'⟩ := List.forall_mem_cons.mp hreadable
    exact List.forall_mem_append.mpr ⟨isWhole_declaration hd hd', ih hds hds' (i + 1)⟩

end

theorem isWhole_words {u : SourceUnit} (style : List Nat → MemberStyle) (h : u.IsWritable)
    (hreadable : u.IsReadable) : ∀ w ∈ u.words style, w.IsWhole := by
  refine List.forall_mem_append.mpr
    ⟨fun w hw => ?_, isWhole_declarations h.declarations hreadable 0⟩
  obtain ⟨i, hi, hw⟩ := List.mem_flatMap.mp hw
  exact isWhole_import (h.imports i hi) w hw

/-- The text of a file is a file of the grammar, and means the same. -/
theorem exists_isFile_of_render (style : Style) {u : SourceUnit} (h : u.IsWritable)
    (hreadable : u.IsReadable) :
    ∃ ts u', scan (u.render style) = .ok ts ∧ IsFile true ts u' ∧ u'.unplaced = u.unplaced := by
  obtain ⟨ts, last, hscan, hlast, hs⟩ :=
    exists_shows_of_written style.layout (isWhole_words style.member h hreadable)
  obtain ⟨us, himports, hs⟩ := shows_append.mp hs
  obtain ⟨ds, hitems, hds⟩ := exists_items h.declarations hreadable 0 hs
  have hfile : IsFile true ts ⟨u.imports, ds⟩ := ⟨last, hlast, items_of_imports himports hitems⟩
  exact ⟨ts, ⟨u.imports, ds⟩, hscan, hfile, congrArg (SourceUnit.mk u.imports) hds⟩

/-- **Files are read back.** What is written in any style is read as the file that was written,
places apart. -/
theorem parse_render (style : Style) {u : SourceUnit} (h : u.IsWritable)
    (hreadable : u.IsReadable) :
    ∃ u', SourceUnit.parse (u.render style) = .ok u' ∧ u'.unplaced = u.unplaced := by
  obtain ⟨ts, u', hscan, hfile, hu⟩ := exists_isFile_of_render style h hreadable
  exact ⟨u', parse_eq_ok_iff.mpr ⟨ts, hscan, hfile⟩, hu⟩

/-- Two interface members without a mark between them, the first with a keyword as its name and a
union as an element, and an enumeration. -/
def sampleUnit : SourceUnit where
  imports := [⟨"./a\n\"", ["X"]⟩]
  declarations := [
    .interface ⟨"Query", ["Base.type"], [
      ⟨"from", .function [⟨"p", .array (.reference "A.b" [] .start), true⟩]
        (.array (.union [.literal (.str "x"), .literal (.int (-1))])), false, true, none, .start⟩,
      ⟨"a b", .function [] (.keyword .null), true, false, none, .start⟩], none, .start⟩,
    .enumeration ⟨"E", [⟨"default", some (.int 1), none⟩], none, .start⟩]

/-- The first member as a method, and no blanks that are not needed. -/
def sampleStyle : Style := ⟨fun path => ⟨.blank, path = [0, 0], false⟩, fun _ => []⟩

theorem isWritable_sampleUnit : sampleUnit.IsWritable where
  imports := by decide +kernel
  declarations := by
    have hbase : IsQualified "Base.type" := by decide +kernel
    have href : IsQualified "A.b" ∧ StartsReference (nameHead "A.b") := by decide +kernel
    have hp : isWord "p" = true := by decide +kernel
    have hq : IsIdentifier "Query" ∧ IsIdentifier "E" := by decide +kernel
    simp [sampleUnit, Declaration.IsWritable, TypeExpr.IsWritable, EnumEntry.IsWritable, hbase,
      href, hp, hq]

theorem isReadable_sampleUnit : sampleUnit.IsReadable := by
  have hone : 1 < 10 ^ digitLimit := Nat.one_lt_pow (by decide) (by decide)
  simp [SourceUnit.IsReadable, sampleUnit, Declaration.IsReadable, TypeExpr.IsReadable,
    TypeExpr.literal?, Literal.IsReadable, hone]

theorem parse_render_sampleUnit : sampleUnit.IsWritable ∧ sampleUnit.IsReadable ∧
    ∃ u', SourceUnit.parse (sampleUnit.render sampleStyle) = .ok u' ∧
      u'.unplaced = sampleUnit.unplaced :=
  ⟨isWritable_sampleUnit, isReadable_sampleUnit,
    parse_render sampleStyle isWritable_sampleUnit isReadable_sampleUnit⟩

/-- **A text says what was meant**: files with one text are the same, in whatever styles. -/
theorem unplaced_eq_of_render_eq {style style' : Style} {u v : SourceUnit} (hu : u.IsWritable)
    (hu' : u.IsReadable) (hv : v.IsWritable) (hv' : v.IsReadable)
    (h : u.render style = v.render style') : u.unplaced = v.unplaced := by
  obtain ⟨ts, u', hscan, hfile, hequ⟩ := exists_isFile_of_render style hu hu'
  obtain ⟨ts', v', hscan', hfile', heqv⟩ := exists_isFile_of_render style' hv hv'
  rw [h, hscan'] at hscan
  cases hscan
  rw [← hequ, ← heqv, hfile.unique hfile']

/-! ### Above the limit -/

/-- A file that declares `A` to be an integer. -/
def integerUnit (n : Nat) : SourceUnit :=
  ⟨[], [.typeAlias ⟨"A", .literal (.int n), none, .start⟩]⟩

theorem words_integerUnit (style : List Nat → MemberStyle) (n : Nat) :
    (integerUnit n).words style =
      [Rendering.keyword .typeWord, .name "A", .mark .equals, .digits n, .mark .semicolon] := by
  have hwords : literalWords (.int n) = [.digits n] := by
    simp [literalWords, optionally]
  simp [SourceUnit.words, integerUnit, declarationList, Declaration.words, TypeExpr.phrase, hwords,
    Phrase.words]

/-- A number without a value starts no type. -/
theorem typeExpr_of_error {n : Nat} {t : Token} {ts : List Token} {fault : SyntaxError}
    (ht : t.kind = .integer) (h : numberValue t = .error fault) :
    typeExpr (n + 3) (t :: ts) = .error fault := by
  have hnumber : number (t :: ts) = .error fault := by
    simp [number, accept, expect, ht, h, error_bind]
  have hprimary : primaryType (n + 1) (t :: ts) = .error fault := by
    simp [primaryType, ht, hnumber, error_bind]
  simp [typeExpr, suffixedType, skip, accept, ht, hprimary, error_bind]

/-- **An integer above the limit cannot be written** so that it is read, in any style. -/
theorem parse_integerUnit {n : Nat} (hn : ¬n < 10 ^ digitLimit) (style : Style) :
    SourceUnit.parse ((integerUnit n).render style) =
      .error (.numeral (.tooManyDigits (Nat.toDigits 10 n).length)) := by
  have hwhole : ∀ w ∈ (integerUnit n).words style.member, w.IsWhole := by
    rw [words_integerUnit]
    simp only [List.forall_mem_cons, Word.IsWhole]
    exact ⟨isWord_keyword _, by decide +kernel, trivial, trivial, trivial, List.forall_mem_nil _⟩
  obtain ⟨ts, last, hscan, hlast, hs⟩ := exists_shows_of_written style.layout hwhole
  rw [words_integerUnit] at hs
  obtain ⟨word, us, rfl, hword, -, hs⟩ := exists_keyword hs
  obtain ⟨name, us, rfl, hname, -, -, hs⟩ := hs.exists_cons
  obtain ⟨equals, us, rfl, hequals, hs⟩ := exists_mark hs
  obtain ⟨t, us, rfl, ht, htext, -, hs⟩ := hs.exists_cons
  obtain ⟨semicolon, us, rfl, hsemicolon, hs⟩ := exists_mark hs
  cases hs
  have hA : IsIdentifier "A" := by decide +kernel
  have hname : name.kind = .identifier := hname.trans (wordKind_of_isIdentifier hA)
  have ht : t.kind = .integer := ht
  set fault := SyntaxError.numeral (.tooManyDigits (Nat.toDigits 10 n).length)
  have hvalue : numberValue t = .error fault := by
    rw [numberValue, if_pos ht, htext, Word.content, readInteger_toDigits, if_neg hn]
  have htype : typeExpr (depthBound [t, semicolon, last]) [t, semicolon, last] = .error fault :=
    typeExpr_of_error ht hvalue
  have halias : item [word, name, equals, t, semicolon, last] = .error fault := by
    simp [item, afterModifiers, hword, aliasDeclaration, expect, expectMark, hname, hequals, htype,
      error_bind, Except.map]
  rw [SourceUnit.parse, SourceUnit.render, hscan]
  simp [SourceUnit.ofTokens, items, hword, halias, error_bind]

/-- No blanks but those between words that would run together. -/
def compactStyle : Style := ⟨fun _ => ⟨.semicolon, false, false⟩, fun _ => []⟩

/-- **Not every file is read back**: what is written for an integer above the limit is not read. -/
theorem not_parse_integerUnit : (integerUnit (10 ^ digitLimit)).IsWritable ∧
    ¬∃ u', SourceUnit.parse ((integerUnit (10 ^ digitLimit)).render compactStyle) = .ok u' ∧
      u'.unplaced = (integerUnit (10 ^ digitLimit)).unplaced := by
  constructor
  · have hA : IsIdentifier "A" := by decide +kernel
    exact ⟨nofun, List.forall_mem_singleton.mpr ⟨hA, rfl, .mk nofun nofun⟩⟩
  · rintro ⟨u', hparse, -⟩
    rw [parse_integerUnit (Nat.lt_irrefl _)] at hparse
    cases hparse

end Grammar

end DeclaredSchema
