import DeclaredSchema.Proofs.Token.Lexeme
import Mathlib.Data.List.Induction

/-!
# The scan accounts for every character

A text that has tokens is cut into lexemes with gaps before, between and behind them. A gap is made
of blanks and whole comments, and a lexeme is the longest one at its place. A text has at most one
such cut, and the scan returns the tokens of the cut.

## Main definitions

* `GapPiece`, `GapPiece.IsWhole` — what gaps are made of
* `Segment`, `Cut`, `Cut.IsOf` — a text as gaps and lexemes
* `IsFront` — the same of the front of a text
* `placeBehind` — the line and the column behind a text, by counting
* `Cut.tokens` — the tokens of a cut text

## Main results

* `Cut.unique` — a text has one cut at most
* `scan_iff_cut` — the scan returns the tokens of the cut, if there is one, and fails otherwise
-/

namespace DeclaredSchema

namespace Lexical

/-- What a gap is made of. The marks that open and close a comment are not in its body. -/
inductive GapPiece where
  | blank (c : Char)
  | line (body : List Char)
  | block (body : List Char)
  deriving DecidableEq, Repr

namespace GapPiece

def text : GapPiece → List Char
  | blank c => [c]
  | line body => '/' :: '/' :: body
  | block body => '/' :: '*' :: body ++ ['*', '/']

/-- The piece is whole when `rest` stands behind it: a comment to the end of the line goes on to the
line feed, and a block comment has its first closing mark at its end. -/
def IsWhole (rest : List Char) : GapPiece → Prop
  | blank c => c ∈ [' ', '\t', '\r', '\n', '\ufeff']
  | line body => '\n' ∉ body ∧ (rest = [] ∨ rest.head? = some '\n')
  | block body => ¬['*', '/'] <:+: body

/-- The body of a documentation comment, behind its second star. -/
def doc? : GapPiece → Option (List Char)
  | block ('*' :: body) => some body
  | _ => none

end GapPiece

def gapText (gap : List GapPiece) : List Char := gap.flatMap GapPiece.text

theorem gapText_cons {piece : GapPiece} {gap : List GapPiece} :
    gapText (piece :: gap) = piece.text ++ gapText gap := rfl

/-- All pieces of a gap are whole. -/
def IsGap (rest : List Char) : List GapPiece → Prop
  | [] => True
  | piece :: gap => piece.IsWhole (gapText gap ++ rest) ∧ IsGap rest gap

/-- The text of the last documentation comment of a gap. -/
def gapDoc (gap : List GapPiece) : Option String :=
  (gap.filterMap GapPiece.doc?).getLast?.bind Doc.clean

/-- A lexeme, of a kind and standing for a text, and the gap before it. -/
structure Segment where
  gap : List GapPiece
  lexeme : List Char
  kind : TokenKind
  content : List Char

/-- A text cut into segments, with a gap behind the last of them. -/
structure Cut where
  segments : List Segment
  last : List GapPiece

/-- The text of some segments and the gap behind them. -/
def cutText (last : List GapPiece) : List Segment → List Char
  | [] => gapText last
  | s :: more => gapText s.gap ++ (s.lexeme ++ cutText last more)

/-- Gaps are whole, and lexemes are the longest at their places. -/
def IsCut (last : List GapPiece) : List Segment → Prop
  | [] => IsGap [] last
  | s :: more => IsGap (s.lexeme ++ cutText last more) s.gap ∧
      IsLongest s.lexeme s.kind s.content (cutText last more) ∧ IsCut last more

/-- The cut is one of the text. -/
def Cut.IsOf (cut : Cut) (text : List Char) : Prop :=
  IsCut cut.last cut.segments ∧ text = cutText cut.last cut.segments

/-- The place behind a text: its line feeds are counted, and the characters behind the last of
them. -/
def placeBehind (text : List Char) : Position :=
  ⟨1 + text.count '\n', 1 + (text.reverse.takeWhile (· ≠ '\n')).length⟩

/-- The tokens of segments that stand behind a text. -/
def segmentTokens (before : List Char) : List Segment → List Token
  | [] => []
  | s :: more =>
    let start := before ++ gapText s.gap
    ⟨s.kind, String.ofList s.content, placeBehind start, gapDoc s.gap⟩ ::
      segmentTokens (start ++ s.lexeme) more

/-- The tokens of a cut text, with the end of the file behind them. -/
def Cut.tokens (cut : Cut) : List Token :=
  segmentTokens [] cut.segments ++ [Token.endAt (placeBehind (cutText cut.last cut.segments))]

variable {l rest rest' tail content : List Char} {kind : TokenKind} {p : Position} {c : Char}
  {more : Nat} {gap gap' last last' : List GapPiece} {piece piece' : GapPiece}
  {doc : Option String}

/-! ### Places -/

theorem placeBehind_concat (text : List Char) (c : Char) :
    placeBehind (text ++ [c]) = (placeBehind text).advance c := by
  by_cases hc : c = '\n'
  · subst hc
    simp [placeBehind, Position.advance, Nat.add_assoc]
  · simp [placeBehind, Position.advance, hc, Nat.add_assoc]

/-- Counting agrees with going on character by character. -/
theorem after_placeBehind (before text : List Char) :
    (placeBehind before).after text = placeBehind (before ++ text) := by
  induction text generalizing before with
  | nil => rw [List.append_nil, Position.after_nil]
  | cons c text ih =>
    rw [Position.after_cons, ← placeBehind_concat, ih, List.append_assoc, List.singleton_append]

/-! ### Pieces of gaps are read -/

/-- The lexeme that a piece is for the scan. -/
def GapPiece.toLexeme : GapPiece → Lexeme
  | .blank _ => .blank
  | .line _ => .comment
  | .block ('*' :: body) => .doc (Doc.clean body)
  | .block _ => .comment

/-- The documentation that waits behind a piece. -/
def GapPiece.docBehind (doc : Option String) (piece : GapPiece) : Option String :=
  match piece.doc? with
  | some body => Doc.clean body
  | none => doc

theorem isGap_iff_mem : isGap c = true ↔ c ∈ [' ', '\t', '\r', '\n', '\ufeff'] := by
  simp [isGap, or_assoc]

theorem commentBody?_append {body : List Char} (h : ¬['*', '/'] <:+: body) :
    commentBody? (body ++ '*' :: '/' :: rest) = some body := by
  induction body with
  | nil => rfl
  | cons c body ih =>
    have hbody : ¬['*', '/'] <:+: body := fun hinside =>
      h (hinside.trans (List.suffix_cons c body).isInfix)
    rw [List.cons_append, commentBody?, ih hbody]
    · rfl
    · rintro more rfl heq
      cases body with
      | nil => cases heq
      | cons d body =>
        cases heq
        exact h ⟨[], body, rfl⟩

theorem eq_append_of_commentBody? {body : List Char} (h : commentBody? tail = some body) :
    ∃ rest, tail = body ++ '*' :: '/' :: rest ∧ ¬['*', '/'] <:+: body := by
  induction tail using commentBody?.induct generalizing body with
  | case1 => cases h
  | case2 rest =>
    cases h
    exact ⟨rest, rfl, by decide⟩
  | case3 c tail hopen ih =>
    rw [commentBody?] at h
    · obtain ⟨body', hbody, rfl⟩ := Option.map_eq_some_iff.mp h
      obtain ⟨rest, rfl, hinfix⟩ := ih hbody
      refine ⟨rest, rfl, fun hinfix' => ?_⟩
      rcases List.infix_cons_iff.mp hinfix' with ⟨more, heq⟩ | hinfix'
      · cases heq
        exact hopen (more ++ '*' :: '/' :: rest) rfl rfl
      · exact hinfix hinfix'
    · exact hopen

theorem takeWhile_line {body : List Char} (hbody : '\n' ∉ body)
    (hrest : rest = [] ∨ rest.head? = some '\n') :
    (body ++ rest).takeWhile (· ≠ '\n') = body := by
  have hall : ∀ x ∈ body, decide (x ≠ '\n') = true := fun x hx =>
    decide_eq_true fun heq => hbody (heq ▸ hx)
  rw [List.takeWhile_append_of_pos hall]
  rcases hrest with rfl | hrest
  · rw [List.takeWhile_nil, List.append_nil]
  · obtain ⟨rest, rfl⟩ := List.head?_eq_some_iff.mp hrest
    rw [List.takeWhile_cons_of_neg (by simp), List.append_nil]

theorem readLexeme_slash : readLexeme p '/' tail = slashLexeme p tail := by
  simp [readLexeme, isGap]

theorem blockComment_append {body : List Char} (h : ¬['*', '/'] <:+: body) :
    blockComment (body ++ '*' :: '/' :: rest) body =
      ⟨(GapPiece.block body).toLexeme, body.length + 3⟩ := by
  unfold blockComment GapPiece.toLexeme
  match body with
  | [] => rfl
  | c :: body =>
    by_cases hc : c = '*'
    · subst hc
      cases body with
      | nil => rfl
      | cons d body =>
        have hd : d ≠ '/' := by
          rintro rfl
          exact h ⟨[], body, rfl⟩
        simp [hd]
    · simp [hc]

/-- Blanks and slashes apart, only tokens are read. -/
theorem exists_token_of_read {lexeme : Lexeme} (hgap : ¬isGap c = true) (hslash : c ≠ '/')
    (h : readLexeme p c tail = .ok ⟨lexeme, more⟩) : ∃ kind word, lexeme = .token kind word := by
  rw [readLexeme, if_neg hgap, if_neg hslash] at h
  split at h
  · unfold equalsLexeme at h
    split at h <;> exact ⟨_, _, (congrArg LexemeRead.lexeme (Except.ok.inj h)).symm⟩
  split at h
  · exact ⟨_, _, (congrArg LexemeRead.lexeme (Except.ok.inj h)).symm⟩
  split at h
  · unfold stringLexeme at h
    split at h <;> cases h
    exact ⟨_, _, rfl⟩
  split at h
  · obtain ⟨kind, word, more', hnumber⟩ := numberLexeme_token c tail
    rw [hnumber] at h
    exact ⟨kind, word, (congrArg LexemeRead.lexeme (Except.ok.inj h)).symm⟩
  split at h
  · exact ⟨_, _, (congrArg LexemeRead.lexeme (Except.ok.inj h)).symm⟩
  · cases h

/-- **Whole pieces are read**, whatever their place is. -/
theorem GapPiece.IsWhole.read (h : piece.IsWhole rest) :
    ∃ c front, piece.text = c :: front ∧ ∀ p, readLexeme p c (front ++ rest) =
      .ok ⟨piece.toLexeme, front.length⟩ := by
  cases piece with
  | blank c => exact ⟨c, [], rfl, fun p => by rw [readLexeme, if_pos (isGap_iff_mem.mpr h)]; rfl⟩
  | line body =>
    refine ⟨'/', '/' :: body, rfl, fun p => ?_⟩
    rw [readLexeme_slash, List.cons_append, slashLexeme, takeWhile_line h.1 h.2, Nat.add_comm]
    rfl
  | block body =>
    refine ⟨'/', '*' :: body ++ ['*', '/'], rfl, fun p => ?_⟩
    rw [readLexeme_slash, List.append_assoc, List.cons_append, List.cons_append, List.cons_append,
      List.nil_append, slashLexeme, commentBody?_append h]
    simp [blockComment_append h]

/-- **Only whole pieces and lexemes are read.** -/
theorem exists_piece_of_read {lexeme : Lexeme} (h : readLexeme p c tail = .ok ⟨lexeme, more⟩)
    (htoken : ∀ kind word, lexeme ≠ .token kind word) :
    ∃ piece front rest, GapPiece.text piece = c :: front ∧ tail = front ++ rest ∧
      more = front.length ∧ lexeme = piece.toLexeme ∧ piece.IsWhole rest := by
  by_cases hgap : isGap c = true
  · rw [readLexeme, if_pos hgap] at h
    cases h
    exact ⟨.blank c, [], tail, rfl, rfl, rfl, rfl, isGap_iff_mem.mp hgap⟩
  by_cases hslash : c = '/'
  · subst hslash
    rw [readLexeme_slash] at h
    unfold slashLexeme at h
    split at h
    · next rest =>
      cases h
      refine ⟨.line (rest.takeWhile (· ≠ '\n')), _, rest.dropWhile (· ≠ '\n'), rfl, ?_, ?_, rfl,
        ?_, ?_⟩
      · rw [List.cons_append, List.takeWhile_append_dropWhile]
      · rw [List.length_cons, Nat.add_comm]
      · exact fun hmem => absurd (List.mem_takeWhile_imp hmem) (by simp)
      · have hhead := List.head?_dropWhile_not (fun c => decide (c ≠ '\n')) rest
        cases hdrop : rest.dropWhile (· ≠ '\n') with
        | nil => exact .inl rfl
        | cons d more =>
          rw [hdrop] at hhead
          exact .inr (congrArg some (by simpa using hhead))
    · next rest =>
      split at h
      · next body hbody =>
        obtain ⟨rest', rfl, hinfix⟩ := eq_append_of_commentBody? hbody
        rw [blockComment_append hinfix] at h
        cases h
        exact ⟨.block body, '*' :: body ++ ['*', '/'], rest', rfl, by simp, by simp, rfl, hinfix⟩
      · cases h
    · cases h
  · obtain ⟨kind, word, rfl⟩ := exists_token_of_read hgap hslash h
    exact absurd rfl (htoken kind word)

/-! ### The scan goes on behind pieces and lexemes -/

theorem scanFrom_piece (h : piece.IsWhole rest) : scanFrom p doc (piece.text ++ rest) =
    scanFrom (p.after piece.text) (piece.docBehind doc) rest := by
  obtain ⟨c, front, htext, hread⟩ := h.read
  rw [htext, List.cons_append, scanFrom, hread]
  simp only [List.take_left, List.drop_left]
  cases piece with
  | blank | line => rfl
  | block body =>
    by_cases hbody : ∃ doc, body = '*' :: doc
    · obtain ⟨doc, rfl⟩ := hbody
      rfl
    · have hstar : ∀ doc, body = '*' :: doc → False := fun doc heq => hbody ⟨doc, heq⟩
      rw [GapPiece.toLexeme.eq_4 _ hstar, GapPiece.docBehind,
        GapPiece.doc?.eq_2 _ fun doc heq => hstar doc (GapPiece.block.inj heq)]

/-- The documentation that waits behind a gap. -/
def docBehindGap (doc : Option String) (gap : List GapPiece) : Option String :=
  gap.foldl GapPiece.docBehind doc

theorem scanFrom_gap (h : IsGap rest gap) : scanFrom p doc (gapText gap ++ rest) =
    scanFrom (p.after (gapText gap)) (docBehindGap doc gap) rest := by
  induction gap generalizing p doc with
  | nil => rfl
  | cons piece gap ih =>
    rw [gapText_cons, List.append_assoc, scanFrom_piece h.1, ih h.2,
      Position.after_append]
    rfl

theorem docBehindGap_none : docBehindGap none gap = gapDoc gap := by
  induction gap using List.reverseRecOn with
  | nil => rfl
  | append_singleton gap piece ih =>
    have hlast : docBehindGap none (gap ++ [piece]) = piece.docBehind (gapDoc gap) := by
      rw [← ih, docBehindGap, List.foldl_append]
      rfl
    rw [hlast, GapPiece.docBehind, gapDoc, gapDoc, List.filterMap_append]
    cases hdoc : piece.doc? <;> simp [hdoc]

/-- Behind a lexeme the scan goes on without documentation. -/
theorem scanFrom_lexeme (h : IsLongest l kind content rest) :
    scanFrom p doc (l ++ rest) = (scanFrom (p.after l) none rest).map
      (⟨kind, String.ofList content, p, doc⟩ :: ·) := by
  obtain ⟨c, front, rfl, hread⟩ := h.read
  rw [List.cons_append, scanFrom, hread]
  simp only [List.take_left, List.drop_left]
  cases scanFrom (p.after (c :: front)) none rest <;> rfl

/-- Segments and the gap behind them are whole when `rest` stands behind. -/
def IsFront (rest : List Char) (last : List GapPiece) : List Segment → Prop
  | [] => IsGap rest last
  | s :: more => IsGap (s.lexeme ++ (cutText last more ++ rest)) s.gap ∧
      IsLongest s.lexeme s.kind s.content (cutText last more ++ rest) ∧ IsFront rest last more

/-- The scan gets behind a front with its tokens and the documentation of its last gap. -/
theorem scanFrom_front {segments : List Segment} (before : List Char)
    (h : IsFront rest last segments) :
    scanFrom (placeBehind before) none (cutText last segments ++ rest) =
      (scanFrom (placeBehind (before ++ cutText last segments)) (gapDoc last) rest).map
        (segmentTokens before segments ++ ·) := by
  induction segments generalizing before with
  | nil =>
    rw [cutText, scanFrom_gap h, after_placeBehind, docBehindGap_none]
    cases scanFrom _ _ rest <;> rfl
  | cons s more ih =>
    rw [cutText, List.append_assoc, List.append_assoc, scanFrom_gap h.1, scanFrom_lexeme h.2.1,
      after_placeBehind, after_placeBehind, ih _ h.2.2, docBehindGap_none, segmentTokens]
    simp only [List.append_assoc]
    cases scanFrom _ _ rest <;> rfl

theorem IsCut.isFront {segments : List Segment} (h : IsCut last segments) :
    IsFront [] last segments := by
  induction segments with
  | nil => exact h
  | cons s more ih => simpa only [IsFront, List.append_nil] using ⟨h.1, h.2.1, ih h.2.2⟩

/-- **A text with a cut is scanned** to the tokens of the cut. -/
theorem scanFrom_cutText {segments : List Segment} (before : List Char)
    (h : IsCut last segments) :
    scanFrom (placeBehind before) none (cutText last segments) = .ok (segmentTokens before segments ++
      [Token.endAt (placeBehind (before ++ cutText last segments))]) := by
  have hscan := scanFrom_front before h.isFront
  rw [List.append_nil, scanFrom] at hscan
  exact hscan

/-! ### What is scanned has a cut -/

/-- A piece in front of a cut text lengthens its first gap. -/
theorem exists_cut_of_piece {segments : List Segment} (h : IsCut last segments)
    (hpiece : piece.IsWhole (cutText last segments)) :
    ∃ segments' last', IsCut last' segments' ∧
      cutText last' segments' = piece.text ++ cutText last segments := by
  cases segments with
  | nil =>
    refine ⟨[], piece :: last, ⟨?_, h⟩, rfl⟩
    rwa [List.append_nil]
  | cons s more =>
    refine ⟨{ s with gap := piece :: s.gap } :: more, last, ⟨⟨hpiece, h.1⟩, h.2⟩, ?_⟩
    simp [cutText, gapText]

theorem exists_cut_of_scanFrom {text : List Char} {tokens : List Token}
    (h : scanFrom p doc text = .ok tokens) :
    ∃ segments last, IsCut last segments ∧ text = cutText last segments := by
  induction hlength : text.length using Nat.strong_induction_on generalizing p doc text tokens with
  | _ n ih =>
    cases text with
    | nil => exact ⟨[], [], trivial, rfl⟩
    | cons c tail =>
      obtain ⟨lexeme, more, hread⟩ : ∃ lexeme more, readLexeme p c tail = .ok ⟨lexeme, more⟩ := by
        rw [scanFrom] at h
        cases hread : readLexeme p c tail with
        | error => rw [hread] at h; cases h
        | ok read => exact ⟨read.lexeme, read.more, rfl⟩
      by_cases htoken : ∃ kind word, lexeme = .token kind word
      · obtain ⟨kind, word, rfl⟩ := htoken
        obtain ⟨front, rest, content, rfl, rfl, rfl, hlongest⟩ := isLongest_of_read hread
        rw [← List.cons_append] at h hlength ⊢
        rw [scanFrom_lexeme hlongest] at h
        cases hrest : scanFrom (p.after (c :: front)) none rest with
        | error => rw [hrest] at h; cases h
        | ok tokens' =>
          have hless : rest.length < n := by
            rw [List.length_append, List.length_cons] at hlength
            omega
          obtain ⟨segments, last, hcut, rfl⟩ := ih _ hless hrest rfl
          exact ⟨⟨[], c :: front, kind, content⟩ :: segments, last, ⟨trivial, hlongest, hcut⟩, rfl⟩
      · obtain ⟨piece, front, rest, htext, rfl, -, -, hpiece⟩ := exists_piece_of_read hread
          fun kind word heq => htoken ⟨kind, word, heq⟩
        rw [← List.cons_append, ← htext] at h hlength ⊢
        rw [scanFrom_piece hpiece] at h
        have hless : rest.length < n := by
          rw [htext, List.length_append, List.length_cons] at hlength
          omega
        obtain ⟨segments, last, hcut, rfl⟩ := ih _ hless h rfl
        obtain ⟨segments', last', hcut', htext'⟩ := exists_cut_of_piece hcut hpiece
        exact ⟨segments', last', hcut', htext'.symm⟩

/-! ### A text has one cut -/

theorem IsLongest.ne_nil (h : IsLongest l kind content rest) : l ≠ [] := by
  obtain ⟨c, front, rfl, -⟩ := h.read
  exact List.cons_ne_nil _ _

/-- What stands behind a gap: nothing, or a lexeme. -/
def StartsWithLexeme (tail : List Char) : Prop :=
  tail = [] ∨ ∃ l kind content rest, tail = l ++ rest ∧ IsLongest l kind content rest

theorem IsLongest.startsWithLexeme (h : IsLongest l kind content rest) :
    StartsWithLexeme (l ++ rest) :=
  .inr ⟨l, kind, content, rest, rfl, h⟩

theorem GapPiece.toLexeme_ne_token {word : String} : piece.toLexeme ≠ .token kind word := by
  unfold GapPiece.toLexeme
  split <;> nofun

/-- No piece of a gap stands where a lexeme does. -/
theorem StartsWithLexeme.ne_piece (h : StartsWithLexeme tail) (hpiece : piece.IsWhole rest) :
    tail ≠ piece.text ++ rest := by
  obtain ⟨c, front, htext, hread⟩ := hpiece.read
  rw [htext, List.cons_append]
  intro heq
  rcases h with rfl | ⟨l, kind, content, rest', rfl, h⟩
  · cases heq
  · obtain ⟨c', front', rfl, hread'⟩ := h.read
    obtain ⟨rfl, htail⟩ := List.cons.inj heq
    have hlexeme := hread' .start
    rw [show front' ++ rest' = front ++ rest from htail, hread] at hlexeme
    exact GapPiece.toLexeme_ne_token (congrArg LexemeRead.lexeme (Except.ok.inj hlexeme))

theorem GapPiece.text_injective : Function.Injective GapPiece.text := by
  intro piece piece' h
  cases piece <;> cases piece' <;> simp_all [GapPiece.text]

/-- Two pieces at one place are the same. -/
theorem GapPiece.IsWhole.unique (h : piece.IsWhole rest) (h' : piece'.IsWhole rest')
    (heq : piece.text ++ rest = piece'.text ++ rest') : piece = piece' ∧ rest = rest' := by
  obtain ⟨c, front, htext, hread⟩ := h.read
  obtain ⟨c', front', htext', hread'⟩ := h'.read
  have heq' := heq
  rw [htext, htext'] at heq'
  obtain ⟨rfl, htail⟩ := List.cons.inj heq'
  have hlexeme := hread .start
  rw [show front ++ rest = front' ++ rest' from htail, hread'] at hlexeme
  have hlength : front'.length = front.length :=
    congrArg LexemeRead.more (Except.ok.inj hlexeme)
  obtain ⟨hpiece, rfl⟩ := List.append_inj heq (by
    rw [htext, htext', List.length_cons, List.length_cons, hlength])
  exact ⟨text_injective hpiece, rfl⟩

theorem IsGap.unique (h : IsGap rest gap) (h' : IsGap rest' gap') (hrest : StartsWithLexeme rest)
    (hrest' : StartsWithLexeme rest') (heq : gapText gap ++ rest = gapText gap' ++ rest') :
    gap = gap' ∧ rest = rest' := by
  induction gap generalizing gap' with
  | nil =>
    cases gap' with
    | nil => exact ⟨rfl, heq⟩
    | cons piece' gap' =>
      rw [gapText_cons, List.append_assoc] at heq
      exact absurd heq (hrest.ne_piece h'.1)
  | cons piece gap ih =>
    cases gap' with
    | nil =>
      rw [gapText_cons, List.append_assoc] at heq
      exact absurd heq.symm (hrest'.ne_piece h.1)
    | cons piece' gap' =>
      rw [gapText_cons, gapText_cons, List.append_assoc, List.append_assoc] at heq
      obtain ⟨rfl, htail⟩ := h.1.unique h'.1 heq
      obtain ⟨rfl, rfl⟩ := ih h.2 h'.2 htail
      exact ⟨rfl, rfl⟩

theorem IsLongest.cut_unique {kind' : TokenKind} {l' content' : List Char}
    (h : IsLongest l kind content rest) (h' : IsLongest l' kind' content' rest')
    (heq : l ++ rest = l' ++ rest') :
    l = l' ∧ kind = kind' ∧ content = content' ∧ rest = rest' := by
  have hle := h.longest h'.lexeme (heq ▸ List.prefix_append l' rest')
  have hge := h'.longest h.lexeme (heq ▸ List.prefix_append l rest)
  obtain ⟨rfl, rfl⟩ := List.append_inj heq (Nat.le_antisymm hge hle)
  obtain ⟨rfl, rfl⟩ := h.lexeme.unique h'.lexeme
  exact ⟨rfl, rfl, rfl, rfl⟩

theorem isCut_unique {segments segments' : List Segment} (h : IsCut last segments)
    (h' : IsCut last' segments') (heq : cutText last segments = cutText last' segments') :
    segments = segments' ∧ last = last' := by
  induction segments generalizing segments' with
  | nil =>
    cases segments' with
    | nil =>
      obtain ⟨rfl, -⟩ := IsGap.unique h h' (.inl rfl) (.inl rfl) (congrArg (· ++ []) heq)
      exact ⟨rfl, rfl⟩
    | cons s' more' =>
      obtain ⟨-, hnil⟩ := IsGap.unique h h'.1 (.inl rfl) h'.2.1.startsWithLexeme
        ((List.append_nil _).trans heq)
      exact absurd (List.append_eq_nil_iff.mp hnil.symm).1 h'.2.1.ne_nil
  | cons s more ih =>
    cases segments' with
    | nil =>
      obtain ⟨-, hnil⟩ := IsGap.unique h.1 h' h.2.1.startsWithLexeme (.inl rfl)
        (heq.trans (List.append_nil _).symm)
      exact absurd (List.append_eq_nil_iff.mp hnil).1 h.2.1.ne_nil
    | cons s' more' =>
      obtain ⟨hgap, htail⟩ := IsGap.unique h.1 h'.1 h.2.1.startsWithLexeme
        h'.2.1.startsWithLexeme heq
      obtain ⟨hl, hkind, hcontent, hrest⟩ := h.2.1.cut_unique h'.2.1 htail
      obtain ⟨rfl, rfl⟩ := ih h.2.2 h'.2.2 hrest
      cases s
      cases s'
      cases hgap; cases hl; cases hkind; cases hcontent
      exact ⟨rfl, rfl⟩

/-- **A text has one cut** at most. -/
theorem Cut.unique {cut cut' : Cut} {text : List Char} (h : cut.IsOf text) (h' : cut'.IsOf text) :
    cut = cut' := by
  obtain ⟨hsegments, hlast⟩ := isCut_unique h.1 h'.1 (h.2.symm.trans h'.2)
  cases cut
  cases cut'
  cases hsegments
  cases hlast
  rfl

/-- **The scan accounts for every character.** It returns some tokens exactly when they are those of
a cut of the text, and the text has no other cut. -/
theorem scan_iff_cut (text : String) (tokens : List Token) :
    scan text = .ok tokens ↔ ∃ cut : Cut, cut.IsOf text.toList ∧ tokens = cut.tokens ∧
      ∀ cut' : Cut, cut'.IsOf text.toList → cut' = cut := by
  constructor
  · intro h
    obtain ⟨segments, last, hcut, htext⟩ := exists_cut_of_scanFrom h
    refine ⟨⟨segments, last⟩, ⟨hcut, htext⟩, ?_, fun cut' h' => Cut.unique h' ⟨hcut, htext⟩⟩
    have hscan := scanFrom_cutText [] hcut
    rw [← htext] at hscan
    rw [Cut.tokens, ← htext]
    exact Except.ok.inj (h.symm.trans hscan)
  · rintro ⟨cut, ⟨hcut, htext⟩, rfl, -⟩
    rw [scan, htext]
    exact scanFrom_cutText [] hcut

end Lexical

end DeclaredSchema
