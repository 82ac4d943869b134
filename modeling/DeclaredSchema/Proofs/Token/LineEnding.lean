import DeclaredSchema.Proofs.Except
import DeclaredSchema.Proofs.Token.Cut

/-!
# Line endings

A text may end its lines with a line feed, or with a carriage return and a line feed. The scan is
the same for both styles: the tokens with their places and their documentation, and the place of the
fault if there is one. The carriage return is absorbed wherever a line can end. Between tokens it is
a blank whose column the line feed forgets; a comment to the end of the line takes it in; in a block
comment it belongs to the break between two lines; and a string that is cut by the end of its line
is refused for its opening quote, or for the column behind its last backslash, which the carriage
return now has.

## Main definitions

* `crlf` — a text with a carriage return before each line feed

## Main results

* `IsLongest.crlf`, `scanFrom_piece_crlf` — lexemes and pieces of gaps are read as before
* `exists_error_of_read` — what is refused is refused at the same place
* `scan_crlf` — the scan does not depend on the line endings
-/

namespace DeclaredSchema

namespace Lexical

open Text

/-- A text with a carriage return before each line feed. -/
def crlf (text : List Char) : List Char :=
  text.flatMap fun c => if c = '\n' then ['\r', '\n'] else [c]

variable {l rest tail content : List Char} {kind : TokenKind} {p q : Position} {c : Char}
  {piece : GapPiece} {doc : Option String}

@[simp] theorem crlf_nil : crlf [] = [] := rfl

@[simp] theorem crlf_lineFeed : crlf ('\n' :: tail) = '\r' :: '\n' :: crlf tail := rfl

@[simp] theorem crlf_cons (h : c ≠ '\n') : crlf (c :: tail) = c :: crlf tail := by
  simp [crlf, h]

@[simp] theorem crlf_append : crlf (l ++ tail) = crlf l ++ crlf tail := by
  simp [crlf]

theorem crlf_eq_self (h : '\n' ∉ l) : crlf l = l := by
  induction l with
  | nil => rfl
  | cons c l ih =>
    simp only [List.mem_cons, not_or] at h
    rw [crlf_cons (Ne.symm h.1), ih h.2]

/-- The line feed forgets the column of the carriage return. -/
theorem after_crlf : p.after (crlf l) = p.after l := by
  induction l generalizing p with
  | nil => rfl
  | cons c l ih =>
    by_cases hc : c = '\n'
    · subst hc
      simpa [Position.advance] using ih
    · simp [hc, ih]

/-- A part of one line that stands at the front of the text with carriage returns stands at the
front of the text without them, unless it ends in the middle of a line break. -/
theorem prefix_of_prefix_crlf (h : l <+: crlf tail) (hline : '\n' ∉ l)
    (hlast : l.getLast? ≠ some '\r') : l <+: tail := by
  induction tail generalizing l with
  | nil => exact h
  | cons c tail ih =>
    match l with
    | [] => exact List.nil_prefix
    | d :: l =>
      by_cases hc : c = '\n'
      · subst hc
        obtain ⟨rfl, hrest⟩ := List.cons_prefix_cons.mp h
        cases l with
        | nil => exact absurd rfl hlast
        | cons e l =>
          obtain ⟨rfl, -⟩ := List.cons_prefix_cons.mp hrest
          simp at hline
      · rw [crlf_cons hc] at h
        obtain ⟨rfl, hrest⟩ := List.cons_prefix_cons.mp h
        refine List.cons_prefix_cons.mpr ⟨rfl, ih hrest (fun hmem => hline (by simp [hmem])) ?_⟩
        intro hl
        exact hlast (by simp [List.getLast?_cons, hl])

/-! ### Lexemes -/

theorem isDigit_ne_break (h : isDigit c = true) : c ≠ '\n' ∧ c ≠ '\r' := by
  constructor <;> rintro rfl <;> exact absurd h (by decide +kernel)

theorem isIdentifierStart_ne_break (h : isIdentifierStart c = true) : c ≠ '\n' ∧ c ≠ '\r' := by
  constructor <;> rintro rfl <;> exact absurd h (by decide +kernel)

theorem isIdentifierPart_ne_break (h : isIdentifierPart c = true) : c ≠ '\n' ∧ c ≠ '\r' := by
  constructor <;> rintro rfl <;> exact absurd h (by decide +kernel)

theorem Spells.not_mem_lineFeed {mark : Char} {body text : List Char} (h : Spells mark body text) :
    '\n' ∉ body := by
  induction h with
  | nil => simp
  | plain _ hline _ _ ih => simp [hline.symm, ih]
  | @escape e _ _ _ he _ ih =>
    have hne : e ≠ '\n' := by
      rintro rfl
      cases he
    simp [hne.symm, ih]

/-- A lexeme is part of one line, and does not end with a carriage return. -/
theorem IsLexeme.within_line (h : IsLexeme l kind content) :
    '\n' ∉ l ∧ l.getLast? ≠ some '\r' := by
  have hrun : ∀ {run : List Char}, (∀ x ∈ run, x ≠ '\n' ∧ x ≠ '\r') →
      '\n' ∉ run ∧ run.getLast? ≠ some '\r' := fun hall =>
    ⟨fun hmem => (hall _ hmem).1 rfl, fun hlast =>
      (hall _ (List.mem_of_getLast? hlast)).2 rfl⟩
  have hword : ∀ {c : Char} {more : List Char}, isIdentifierStart c = true →
      (∀ x ∈ more, isIdentifierPart x = true) → ∀ x ∈ c :: more, x ≠ '\n' ∧ x ≠ '\r' :=
    fun hstart hmore => List.forall_mem_cons.mpr
      ⟨isIdentifierStart_ne_break hstart, fun x hx => isIdentifierPart_ne_break (hmore x hx)⟩
  cases h with
  | equals | arrow => exact ⟨by decide, by decide⟩
  | mark h =>
    refine hrun fun x hx => ?_
    rw [List.mem_singleton.mp hx]
    constructor <;> rintro rfl <;> cases h
  | keyword word =>
    obtain ⟨c, more, htext, hstart, hmore⟩ := keyword_start word
    rw [htext]
    exact hrun (hword hstart hmore)
  | identifier hstart hmore => exact hrun (hword hstart hmore)
  | integer _ h => exact hrun fun x hx => isDigit_ne_break (h x hx)
  | float _ _ h h' =>
    refine hrun fun x hx => ?_
    rcases List.mem_append.mp hx with hx | hx
    · exact isDigit_ne_break (h x hx)
    · rcases List.mem_cons.mp hx with rfl | hx
      · decide
      · exact isDigit_ne_break (h' x hx)
  | string hmark h =>
    have hbody := h.not_mem_lineFeed
    rw [List.getLast?_concat]
    rcases hmark with rfl | rfl <;> simp [hbody]

/-- **Lexemes are cut as before.** -/
theorem IsLongest.crlf (h : IsLongest l kind content rest) :
    IsLongest l kind content (crlf rest) := by
  refine ⟨h.lexeme, fun {l' _ _} hlexeme hfront => ?_⟩
  rcases List.prefix_or_prefix_of_prefix hfront (List.prefix_append l _) with hle | ⟨m, rfl⟩
  · exact hle.length_le
  obtain ⟨hline, hlast⟩ := hlexeme.within_line
  cases m with
  | nil => simp
  | cons d m =>
    have hm : d :: m <+: rest := by
      refine prefix_of_prefix_crlf ((List.prefix_append_right_inj l).mp hfront)
        (fun hmem => hline (List.mem_append_right l hmem)) ?_
      simpa [List.getLast?_append] using hlast
    exact h.longest hlexeme ((List.prefix_append_right_inj l).mpr hm)

/-! ### Gaps -/

/-- Both styles cut a documentation comment into the same lines. -/
theorem lines_crlf (h : '\r' ∉ l) : lines (crlf l) = lines l := by
  induction l with
  | nil => rfl
  | cons c l ih =>
    simp only [List.mem_cons, not_or] at h
    by_cases hc : c = '\n'
    · subst hc
      rw [crlf_lineFeed, lines.eq_2, ih h.2, lines.eq_3]
      · rfl
      · intro _ heq
        exact absurd heq (by decide)
    · have hbreak : ∀ rest, c = '\r' → l = '\n' :: rest → False := fun _ heq => absurd heq.symm h.1
      have hbreak' : ∀ rest, c = '\r' → crlf l = '\n' :: rest → False :=
        fun _ heq => absurd heq.symm h.1
      rw [crlf_cons hc, lines.eq_3 _ _ hbreak, lines.eq_3 _ _ hbreak', ih h.2]

theorem clean_crlf (h : '\r' ∉ l) : Doc.clean (crlf l) = Doc.clean l := by
  rw [Doc.clean, Doc.textLines, lines_crlf h]
  rfl

/-- A carriage return neither makes nor breaks the mark that closes a comment. -/
theorem close_infix_crlf : ['*', '/'] <:+: crlf l ↔ ['*', '/'] <:+: l := by
  induction l with
  | nil => rfl
  | cons c l ih =>
    by_cases hc : c = '\n'
    · subst hc
      simp [List.infix_cons_iff, ih]
    · have hslash : ['/'] <+: crlf l ↔ ['/'] <+: l := by
        cases l with
        | nil => rfl
        | cons d l => by_cases hd : d = '\n' <;> simp [hd]
      simp [hc, List.infix_cons_iff, ih, hslash]

theorem docBehind_crlf (h : '\r' ∉ l) :
    (GapPiece.block (crlf l)).docBehind doc = (GapPiece.block l).docBehind doc := by
  cases l with
  | nil => rfl
  | cons c l =>
    by_cases hline : c = '\n'
    · subst hline
      rfl
    by_cases hstar : c = '*'
    · subst hstar
      exact clean_crlf fun hmem => h (List.mem_cons_of_mem _ hmem)
    · simp [hline, GapPiece.docBehind, GapPiece.doc?, hstar]

/-- **Pieces of gaps are read as before.** A comment to the end of the line takes in the carriage
return, which is a blank without it. -/
theorem scanFrom_piece_crlf (h : piece.IsWhole rest) (hreturn : '\r' ∉ piece.text) :
    scanFrom p doc (crlf (piece.text ++ rest)) =
      scanFrom (p.after piece.text) (piece.docBehind doc) (crlf rest) := by
  have hblank : ∀ {c : Char} {q : Position} {tail : List Char}, isGap c = true →
      scanFrom q doc (c :: tail) = scanFrom (q.advance c) doc tail := by
    intro c q tail hc
    have hwhole : (GapPiece.blank c).IsWhole tail := isGap_iff_mem.mp hc
    exact scanFrom_piece hwhole
  rw [crlf_append]
  cases piece with
  | blank c =>
    by_cases hc : c = '\n'
    · subst hc
      exact (hblank (by decide)).trans (hblank (by decide))
    · simp only [GapPiece.text, crlf_cons hc]
      exact hblank (isGap_iff_mem.mpr h)
  | line body =>
    have hline : '\n' ∉ (GapPiece.line body).text := by simp [GapPiece.text, h.1]
    rw [crlf_eq_self hline]
    rcases h.2 with rfl | hrest
    · exact scanFrom_piece h
    · obtain ⟨rest, rfl⟩ := List.head?_eq_some_iff.mp hrest
      have hlonger : (GapPiece.line (body ++ ['\r'])).IsWhole ('\n' :: crlf rest) :=
        ⟨by simp [h.1], .inr rfl⟩
      have hread : scanFrom p doc
          ((GapPiece.line (body ++ ['\r'])).text ++ '\n' :: crlf rest) = _ :=
        scanFrom_piece hlonger
      have hreturned : scanFrom (p.after (GapPiece.line body).text) doc (crlf ('\n' :: rest)) =
          scanFrom ((p.after (GapPiece.line body).text).advance '\r') doc ('\n' :: crlf rest) :=
        hblank (by decide)
      refine Eq.trans ?_ hreturned.symm
      simpa [GapPiece.text, GapPiece.docBehind, GapPiece.doc?] using hread
  | block body =>
    have hwhole : (GapPiece.block (crlf body)).IsWhole (crlf rest) := fun hinfix =>
      h (close_infix_crlf.mp hinfix)
    have htext : crlf (GapPiece.block body).text = (GapPiece.block (crlf body)).text := by
      simp [GapPiece.text]
    have hbody : '\r' ∉ body := fun hmem => hreturn (by simp [GapPiece.text, hmem])
    rw [htext, scanFrom_piece hwhole, docBehind_crlf hbody, ← htext, after_crlf]

/-! ### Faults -/

/-- A text that closes a comment somewhere closes it. -/
theorem commentBody?_ne_none (h : ['*', '/'] <:+: l) : commentBody? l ≠ none := by
  fun_induction commentBody? l with
  | case1 => simp at h
  | case2 => simp
  | case3 c rest hopen ih =>
    rcases List.infix_cons_iff.mp h with ⟨more, heq⟩ | hinfix
    · cases heq
      exact absurd rfl (hopen more rfl)
    · simpa using ih hinfix

theorem commentBody?_crlf_eq_none (h : commentBody? l = none) :
    commentBody? (crlf l) = none := by
  cases hbody : commentBody? (crlf l) with
  | none => rfl
  | some body =>
    obtain ⟨rest, heq, -⟩ := eq_append_of_commentBody? hbody
    have hinfix : ['*', '/'] <:+: crlf l := ⟨body, rest, by simp [heq]⟩
    exact absurd h (commentBody?_ne_none (close_infix_crlf.mp hinfix))

theorem stringBody_cons {mark : Char} (hescape : c ≠ '\\') (hmark : c ≠ mark) (hline : c ≠ '\n') :
    stringBody mark (c :: tail) = (stringBody mark tail).push c 1 := by
  rw [stringBody, if_neg hmark, if_neg hline]
  · exact fun h => absurd h hescape
  · exact fun _ _ h => absurd h hescape

theorem push_eq_unterminated {body : StringBody} {width : Nat} :
    body.push c width = .unterminated ↔ body = .unterminated := by
  cases body <;> simp [StringBody.push]

theorem push_eq_invalidEscape {body : StringBody} {width before : Nat} {e : Char} :
    body.push c width = .invalidEscape before e ↔
      ∃ before', before' + width = before ∧ body = .invalidEscape before' e := by
  cases body <;> simp [StringBody.push]

/-- A character that neither ends a text as a backslash nor starts an escape is no backslash. -/
theorem ne_backslash (hlast : c = '\\' → tail = [] → False)
    (hescape : ∀ e rest, c = '\\' → tail = e :: rest → False) : c ≠ '\\' := by
  intro hc
  cases tail with
  | nil => exact hlast hc rfl
  | cons e rest => exact hescape e rest hc rfl

/-- A string that is not closed in its line is not closed there in the other style. -/
theorem stringBody_crlf_unterminated {mark : Char} (hmark : mark ≠ '\r')
    (h : stringBody mark l = .unterminated) : stringBody mark (crlf l) = .unterminated := by
  fun_induction stringBody mark l with
  | case1 | case2 => rfl
  | case3 e rest v he ih =>
    have hline : e ≠ '\n' := by
      rintro rfl
      cases he
    rw [crlf_cons (by decide), crlf_cons hline, stringBody, he]
    exact push_eq_unterminated.mpr (ih (push_eq_unterminated.mp h))
  | case4 | case5 => cases h
  | case6 rest hlast hescape hne =>
    rw [crlf_lineFeed, stringBody_cons (by decide) hmark.symm (by decide), stringBody, if_neg hne,
      if_pos rfl]
    · rfl
    · exact fun h => absurd h (by decide)
    · exact fun _ _ h => absurd h (by decide)
  | case7 c rest hlast hescape hne hline ih =>
    rw [crlf_cons hline, stringBody_cons (ne_backslash hlast hescape) hne hline]
    exact push_eq_unterminated.mpr (ih (push_eq_unterminated.mp h))

/-- An escape that is no escape is none in the other style, where a line feed behind a backslash
gives way to a carriage return. -/
theorem stringBody_crlf_invalidEscape {mark : Char} {before : Nat} {e : Char}
    (h : stringBody mark l = .invalidEscape before e) :
    ∃ e', stringBody mark (crlf l) = .invalidEscape before e' ∧
      (crlf l).take before = l.take before := by
  fun_induction stringBody mark l generalizing before e with
  | case1 | case2 => cases h
  | case3 d rest v hd ih =>
    have hline : d ≠ '\n' := by
      rintro rfl
      cases hd
    obtain ⟨before', rfl, hbody⟩ := push_eq_invalidEscape.mp h
    obtain ⟨e', hcrlf, htake⟩ := ih hbody
    rw [crlf_cons (by decide), crlf_cons hline, stringBody, hd]
    exact ⟨e', push_eq_invalidEscape.mpr ⟨before', rfl, hcrlf⟩, by simp [htake]⟩
  | case4 d rest hd =>
    cases h
    by_cases hline : d = '\n'
    · subst hline
      exact ⟨'\r', rfl, rfl⟩
    · exact ⟨d, by simp [hline, stringBody, hd], rfl⟩
  | case5 | case6 => cases h
  | case7 c rest hlast hescape hne hline ih =>
    obtain ⟨before', rfl, hbody⟩ := push_eq_invalidEscape.mp h
    obtain ⟨e', hcrlf, htake⟩ := ih hbody
    rw [crlf_cons hline, stringBody_cons (ne_backslash hlast hescape) hne hline]
    exact ⟨e', push_eq_invalidEscape.mpr ⟨before', rfl, hcrlf⟩, by simp [htake]⟩

theorem exists_error_of_stringLexeme {e : ScanError} (hc : c = '"' ∨ c = '\'')
    (h : stringLexeme p c tail = .error e) :
    ∃ e', stringLexeme p c (crlf tail) = .error e' ∧ e'.position = e.position := by
  unfold stringLexeme at h
  split at h <;> cases h
  · next hbody =>
    have hreturn : c ≠ '\r' := by rcases hc with rfl | rfl <;> decide
    exact ⟨_, by rw [stringLexeme, stringBody_crlf_unterminated hreturn hbody], rfl⟩
  · next before d hbody =>
    obtain ⟨d', hcrlf, htake⟩ := stringBody_crlf_invalidEscape hbody
    exact ⟨_, by rw [stringLexeme, hcrlf], by simp only [htake]⟩

theorem exists_error_of_slashLexeme {e : ScanError} (h : slashLexeme p tail = .error e) :
    ∃ e', slashLexeme p (crlf tail) = .error e' ∧ e'.position = e.position := by
  unfold slashLexeme at h
  split at h
  · cases h
  · next rest =>
    split at h <;> cases h
    next hbody =>
    refine ⟨⟨.unterminatedComment, p⟩, ?_, rfl⟩
    rw [crlf_cons (by decide), slashLexeme, commentBody?_crlf_eq_none hbody]
  · next hline hblock =>
    cases h
    refine ⟨⟨.unexpected '/', p⟩, ?_, rfl⟩
    cases tail with
    | nil => rfl
    | cons c tail =>
      by_cases hc : c = '\n'
      · subst hc
        rfl
      · rw [crlf_cons hc, slashLexeme]
        · rintro rest ⟨rfl, -⟩
          exact hline tail rfl
        · rintro rest ⟨rfl, -⟩
          exact hblock tail rfl

/-- **What is refused is refused at the same place.** -/
theorem exists_error_of_read {e : ScanError} (h : readLexeme p c tail = .error e) :
    ∃ e', readLexeme p c (crlf tail) = .error e' ∧ e'.position = e.position := by
  unfold readLexeme at h ⊢
  split at h
  · cases h
  next hgap =>
  rw [if_neg hgap]
  split at h
  · next hslash =>
    rw [if_pos hslash]
    exact exists_error_of_slashLexeme h
  next hslash =>
  rw [if_neg hslash]
  split at h
  · cases h
  next hequals =>
  rw [if_neg hequals]
  split at h
  · cases h
  split at h
  · next hquote =>
    rw [if_pos hquote]
    exact exists_error_of_stringLexeme hquote h
  next hquote =>
  rw [if_neg hquote]
  split at h
  · cases h
  next hdigit =>
  rw [if_neg hdigit]
  split at h
  · cases h
  next hstart =>
  rw [if_neg hstart]
  exact ⟨e, h, rfl⟩

/-- The scan of what is left goes on alike. -/
theorem scanFrom_crlf (h : '\r' ∉ l) : (scanFrom p doc (crlf l)).mapError ScanError.position =
    (scanFrom p doc l).mapError ScanError.position := by
  induction hlength : l.length using Nat.strong_induction_on generalizing p doc l with
  | _ n ih =>
    cases l with
    | nil => rfl
    | cons c tail =>
      cases hread : readLexeme p c tail with
      | error e =>
        have hline : c ≠ '\n' := by
          rintro rfl
          cases hread
        obtain ⟨e', hread', hplace⟩ := exists_error_of_read hread
        rw [crlf_cons hline, scanFrom, hread', scanFrom, hread]
        exact congrArg Except.error hplace
      | ok read =>
        obtain ⟨lexeme, more⟩ := read
        by_cases htoken : ∃ kind word, lexeme = .token kind word
        · obtain ⟨kind, word, rfl⟩ := htoken
          obtain ⟨front, rest, content, rfl, rfl, rfl, hlongest⟩ := isLongest_of_read hread
          rw [← List.cons_append] at h hlength ⊢
          have hline := hlongest.lexeme.within_line.1
          have hrest : '\r' ∉ rest := fun hmem => h (List.mem_append_right _ hmem)
          have hless : rest.length < n := by
            rw [← hlength, List.length_append, List.length_cons]
            omega
          rw [crlf_append, crlf_eq_self hline, scanFrom_lexeme hlongest.crlf,
            scanFrom_lexeme hlongest, mapError_map, mapError_map, ih _ hless hrest rfl]
        · obtain ⟨piece, front, rest, htext, rfl, -, -, hpiece⟩ := exists_piece_of_read hread
            fun kind word heq => htoken ⟨kind, word, heq⟩
          rw [← List.cons_append, ← htext] at h hlength ⊢
          have hrest : '\r' ∉ rest := fun hmem => h (List.mem_append_right _ hmem)
          have hless : rest.length < n := by
            rw [← hlength, htext, List.length_append, List.length_cons]
            omega
          rw [scanFrom_piece hpiece, scanFrom_piece_crlf hpiece
            fun hmem => h (List.mem_append_left _ hmem)]
          exact ih _ hless hrest rfl

/-- **The scan does not depend on the line endings.** With a carriage return before each of its line
feeds, a text has the same tokens, or is refused at the same place. -/
theorem scan_crlf (text : String) (h : '\r' ∉ text.toList) :
    (scan (String.ofList (crlf text.toList))).mapError ScanError.position =
      (scan text).mapError ScanError.position := by
  rw [scan, String.toList_ofList, scan, scanFrom_crlf h]

/-- A documentation comment over several lines, a comment to the end of its line, and a string that
the end of its line cuts off. -/
def brokenLines : String := "/** One\n *\n * two */ type A = 1 // done\n/* */ type B = 'b\n"

theorem scan_crlf_brokenLines : '\r' ∉ brokenLines.toList ∧
    (scan (String.ofList (crlf brokenLines.toList))).mapError ScanError.position =
      (scan brokenLines).mapError ScanError.position :=
  ⟨by decide +kernel, scan_crlf brokenLines (by decide +kernel)⟩

end Lexical

end DeclaredSchema
