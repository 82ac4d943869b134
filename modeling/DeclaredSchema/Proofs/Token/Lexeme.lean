import DeclaredSchema.Proofs.Text.Apart
import DeclaredSchema.Token.Scan
import Mathlib.Data.List.TakeWhile

/-!
# Lexemes

What a lexeme is, is said here without the scan: which texts are tokens, of which kind, and what
each of them stands for. A text may start with several lexemes, such as the equals sign and the
arrow, or a number and a shorter one. The scan takes the longest of them, and that is all it does
at a place where a lexeme starts.

## Main definitions

* `Spells` — what stands between the quotes of a string, and the text that it stands for
* `IsLexeme` — the lexemes
* `IsLongest` — no longer lexeme starts at the same place

## Main results

* `IsLexeme.unique` — a lexeme is of one kind and stands for one text
* `IsLongest.read`, `isLongest_of_read` — what is read at the front of a text is the longest lexeme
  there
-/

namespace DeclaredSchema

namespace Lexical

open Text

/-- Between two `mark`s, the first text stands for the second. -/
inductive Spells (mark : Char) : List Char → List Char → Prop
  | nil : Spells mark [] []
  | plain {c : Char} {body text : List Char} (hmark : c ≠ mark) (hline : c ≠ '\n')
      (hescape : c ≠ '\\') (h : Spells mark body text) : Spells mark (c :: body) (c :: text)
  | escape {e v : Char} {body text : List Char} (he : escapeValue? e = some v)
      (h : Spells mark body text) : Spells mark ('\\' :: e :: body) (v :: text)

/-- The text is a token of the kind, and the second text is what it says: itself, unless it is a
string. -/
inductive IsLexeme : List Char → TokenKind → List Char → Prop
  | equals : IsLexeme ['='] (.symbol .equals) ['=']
  | arrow : IsLexeme ['=', '>'] (.symbol .arrow) ['=', '>']
  | mark {c : Char} {mark : Symbol} (h : Symbol.ofChar? c = some mark) :
      IsLexeme [c] (.symbol mark) [c]
  | keyword (word : Keyword) : IsLexeme word.text.toList (.keyword word) word.text.toList
  | identifier {c : Char} {more : List Char} (hstart : isIdentifierStart c = true)
      (hmore : ∀ x ∈ more, isIdentifierPart x = true)
      (hword : ∀ word : Keyword, word.text.toList ≠ c :: more) :
      IsLexeme (c :: more) .identifier (c :: more)
  | integer {digits : List Char} (hne : digits ≠ []) (h : ∀ d ∈ digits, isDigit d = true) :
      IsLexeme digits .integer digits
  | float {whole fraction : List Char} (hwhole : whole ≠ []) (hfraction : fraction ≠ [])
      (h : ∀ d ∈ whole, isDigit d = true) (h' : ∀ d ∈ fraction, isDigit d = true) :
      IsLexeme (whole ++ '.' :: fraction) .float (whole ++ '.' :: fraction)
  | string {mark : Char} {body text : List Char} (hmark : mark = '"' ∨ mark = '\'')
      (h : Spells mark body text) : IsLexeme (mark :: body ++ [mark]) .string text

/-- The lexeme `l`, with `rest` behind it, is the longest one at its place. -/
structure IsLongest (l : List Char) (kind : TokenKind) (content rest : List Char) : Prop where
  lexeme : IsLexeme l kind content
  longest : ∀ {l' kind' content'}, IsLexeme l' kind' content' → l' <+: l ++ rest →
    l'.length ≤ l.length

variable {l rest tail content : List Char} {kind : TokenKind} {word : String} {p : Position}
  {c : Char} {more : Nat}

/-! ### Characters

The first character of a lexeme decides how the lexeme is read. -/

theorem not_mem_delimiters_of_isIdentifierStart (h : isIdentifierStart c = true) :
    c ∉ delimiters := by
  simp only [isIdentifierStart, Bool.or_eq_true, decide_eq_true_eq] at h
  rcases h with (h | rfl) | rfl
  · exact not_mem_delimiters_of_isLetter h
  · decide
  · decide

theorem isDigit_eq_false_of_isIdentifierStart (h : isIdentifierStart c = true) :
    isDigit c = false := by
  simp only [isIdentifierStart, Bool.or_eq_true, decide_eq_true_eq] at h
  rcases h with (h | rfl) | rfl
  · exact isDigit_eq_false_of_isLetter h
  · decide
  · decide

theorem readLexeme_of_not_mem_delimiters (h : c ∉ delimiters) :
    readLexeme p c tail =
      if isDigit c then .ok (numberLexeme c tail)
      else if isIdentifierStart c then .ok (wordLexeme c tail)
      else .error ⟨.unexpected c, p⟩ := by
  simp only [delimiters, List.mem_cons, List.not_mem_nil, or_false, not_or] at h
  have hgap : isGap c = false := by simp [isGap, h]
  have hmark : Symbol.ofChar? c = none := by
    unfold Symbol.ofChar?
    split <;> simp_all
  simp [readLexeme, hgap, hmark, h]

theorem readLexeme_of_isDigit (h : isDigit c = true) :
    readLexeme p c tail = .ok (numberLexeme c tail) := by
  rw [readLexeme_of_not_mem_delimiters (not_mem_delimiters_of_isDigit h), if_pos h]

theorem readLexeme_of_isIdentifierStart (h : isIdentifierStart c = true) :
    readLexeme p c tail = .ok (wordLexeme c tail) := by
  rw [readLexeme_of_not_mem_delimiters (not_mem_delimiters_of_isIdentifierStart h),
    isDigit_eq_false_of_isIdentifierStart h, if_neg Bool.false_ne_true, if_pos h]

theorem readLexeme_equals : readLexeme p '=' tail = .ok (equalsLexeme tail) := by
  simp [readLexeme, show isGap '=' = false by decide]

theorem slashLexeme_ne_token : slashLexeme p tail ≠ .ok ⟨.token kind word, more⟩ := by
  unfold slashLexeme
  split
  · nofun
  · split
    · unfold blockComment
      split <;> nofun
    · nofun
  · nofun

theorem text_of_ofChar? {mark : Symbol} (h : Symbol.ofChar? c = some mark) :
    mark.text = String.ofList [c] := by
  unfold Symbol.ofChar? at h
  split at h <;> cases h <;> decide

theorem readLexeme_of_ofChar? {mark : Symbol} (h : Symbol.ofChar? c = some mark) :
    readLexeme p c tail = .ok ⟨.token (.symbol mark) mark.text, 0⟩ := by
  have hother : isGap c = false ∧ c ≠ '/' ∧ c ≠ '=' := by
    unfold Symbol.ofChar? at h
    split at h <;> first | cases h; done | exact by decide
  simp [readLexeme, hother, h]

theorem readLexeme_of_quote (h : c = '"' ∨ c = '\'') :
    readLexeme p c tail = stringLexeme p c tail := by
  rcases h with rfl | rfl <;>
    simp [readLexeme, isGap, Symbol.ofChar?]

/-! ### Strings -/

theorem ne_backslash_of_quote (h : c = '"' ∨ c = '\'') : c ≠ '\\' := by
  rcases h with rfl | rfl <;> decide

/-- What stands between two quotes is read up to the second. -/
theorem Spells.stringBody {mark : Char} {body text : List Char} (h : Spells mark body text)
    (rest : List Char) (hmark : mark ≠ '\\') :
    stringBody mark (body ++ mark :: rest) = .closed text (body.length + 1) := by
  induction h with
  | nil =>
    rw [List.nil_append, DeclaredSchema.stringBody, if_pos rfl]
    · rfl
    · exact fun h => absurd h hmark
    · exact fun _ _ h => absurd h hmark
  | plain hne hline hescape _ ih =>
    rw [List.cons_append, DeclaredSchema.stringBody, if_neg hne, if_neg hline, ih]
    · rfl
    · exact fun h => absurd h hescape
    · exact fun _ _ h => absurd h hescape
  | escape he _ ih =>
    rw [List.cons_append, List.cons_append, DeclaredSchema.stringBody, he, ih]
    rfl

theorem push_eq_closed {v : Char} {width length : Nat} {b : StringBody} {text : List Char}
    (h : b.push v width = .closed text length) :
    ∃ text' length', b = .closed text' length' ∧ text = v :: text' ∧ length = length' + width := by
  cases b with
  | closed text' length' =>
    cases h
    exact ⟨text', length', rfl, rfl, rfl⟩
  | unterminated | invalidEscape => cases h

/-- What is read up to a quote stands between two of them. -/
theorem exists_spells_of_stringBody {mark : Char} {text : List Char} {length : Nat}
    (h : stringBody mark tail = .closed text length) :
    ∃ body rest, tail = body ++ mark :: rest ∧ length = body.length + 1 ∧
      Spells mark body text := by
  fun_induction stringBody mark tail generalizing text length with
  | case1 | case2 => cases h
  | case3 e tail v he ih =>
    obtain ⟨text', length', hb, rfl, rfl⟩ := push_eq_closed h
    obtain ⟨body, rest, rfl, rfl, hspells⟩ := ih hb
    exact ⟨'\\' :: e :: body, rest, rfl, rfl, .escape he hspells⟩
  | case4 => cases h
  | case5 tail =>
    cases h
    exact ⟨[], tail, rfl, rfl, .nil⟩
  | case6 => cases h
  | case7 c tail hlast hescape hmark hline ih =>
    obtain ⟨text', length', hb, rfl, rfl⟩ := push_eq_closed h
    obtain ⟨body, rest, rfl, rfl, hspells⟩ := ih hb
    refine ⟨c :: body, rest, rfl, rfl, .plain hmark hline ?_ hspells⟩
    rintro rfl
    cases hbody : body ++ mark :: rest with
    | nil => exact List.append_ne_nil_of_right_ne_nil _ (List.cons_ne_nil _ _) hbody
    | cons e more => exact hescape e more rfl hbody

/-! ### Words and numbers

Both are runs of characters of a class, as long as they can be. -/

/-- The kind of a word. -/
def wordKind (word : List Char) : TokenKind :=
  match Keyword.ofText? (String.ofList word) with
  | some k => .keyword k
  | none => .identifier

theorem wordLexeme_eq : wordLexeme c tail =
    ⟨.token (wordKind (c :: tail.takeWhile isIdentifierPart))
      (String.ofList (c :: tail.takeWhile isIdentifierPart)),
      (tail.takeWhile isIdentifierPart).length⟩ := rfl

theorem wordKind_text (word : Keyword) : wordKind word.text.toList = .keyword word := by
  rw [wordKind, String.ofList_toList, Keyword.ofText?_text]

theorem wordKind_of_ne {word : List Char} (h : ∀ k : Keyword, k.text.toList ≠ word) :
    wordKind word = .identifier := by
  rw [wordKind]
  cases hk : Keyword.ofText? (String.ofList word) with
  | none => rfl
  | some k =>
    have htext := congrArg String.toList (Keyword.text_of_ofText? hk)
    rw [String.toList_ofList] at htext
    exact absurd htext (h k)

/-- Keywords are made of the characters of identifiers. -/
theorem keyword_start (word : Keyword) : ∃ c more, word.text.toList = c :: more ∧
    isIdentifierStart c = true ∧ ∀ x ∈ more, isIdentifierPart x = true := by
  have h : ∃ c more, word.text.toList = c :: more ∧ isIdentifierStart c = true ∧
      more.all isIdentifierPart = true := by
    cases word <;> exact ⟨_, _, rfl, by decide, by decide⟩
  obtain ⟨c, more, htext, hstart, hall⟩ := h
  exact ⟨c, more, htext, hstart, List.all_eq_true.mp hall⟩

theorem isLexeme_word (hstart : isIdentifierStart c = true) {more : List Char}
    (hmore : ∀ x ∈ more, isIdentifierPart x = true) :
    IsLexeme (c :: more) (wordKind (c :: more)) (c :: more) := by
  by_cases hword : ∃ k : Keyword, k.text.toList = c :: more
  · obtain ⟨k, hk⟩ := hword
    rw [← hk, wordKind_text]
    exact .keyword k
  · have hword : ∀ k : Keyword, k.text.toList ≠ c :: more := fun k hk => hword ⟨k, hk⟩
    rw [wordKind_of_ne hword]
    exact .identifier hstart hmore hword

theorem numberLexeme_token (c : Char) (tail : List Char) :
    ∃ kind word more, numberLexeme c tail = ⟨.token kind word, more⟩ := by
  unfold numberLexeme
  simp only
  split
  · split <;> exact ⟨_, _, _, rfl⟩
  · exact ⟨_, _, _, rfl⟩

theorem length_le_more_numberLexeme (c : Char) (tail : List Char) :
    (tail.takeWhile isDigit).length ≤ (numberLexeme c tail).more := by
  unfold numberLexeme
  simp only
  split
  · split <;> simp only <;> omega
  · exact Nat.le_refl _

theorem numberLexeme_float {d : Char} {more : List Char} (hd : isDigit d = true)
    (h : tail.dropWhile isDigit = '.' :: d :: more) :
    numberLexeme c tail =
      ⟨.token .float (String.ofList
        (c :: tail.takeWhile isDigit ++ '.' :: d :: more.takeWhile isDigit)),
        (tail.takeWhile isDigit).length + 1 + (d :: more.takeWhile isDigit).length⟩ := by
  simp only [numberLexeme, h, hd, if_true]

theorem numberLexeme_integer (h : ∀ d more, tail.dropWhile isDigit = '.' :: d :: more →
    isDigit d = false) :
    numberLexeme c tail = ⟨.token .integer (String.ofList (c :: tail.takeWhile isDigit)),
      (tail.takeWhile isDigit).length⟩ := by
  unfold numberLexeme
  simp only
  split
  · next d more heq => rw [if_neg (by simp [h d more heq])]
  · rfl

/-! ### A lexeme at the front is read -/

/-- What is said of a text that starts with a lexeme: a lexeme at least as long is read, and the
lexeme itself if the text ends behind it. -/
def IsReadAtFront (l : List Char) (kind : TokenKind) (content rest : List Char) : Prop :=
  ∃ c tail kind' word more, l ++ rest = c :: tail ∧
    (∀ p, readLexeme p c tail = .ok ⟨.token kind' word, more⟩) ∧ l.length ≤ more + 1 ∧
    (rest = [] → kind' = kind ∧ word = String.ofList content)

theorem word_isReadAtFront (hstart : isIdentifierStart c = true) {more : List Char}
    (hmore : ∀ x ∈ more, isIdentifierPart x = true) :
    IsReadAtFront (c :: more) (wordKind (c :: more)) (c :: more) rest := by
  refine ⟨c, more ++ rest, _, _, _, rfl, fun p => readLexeme_of_isIdentifierStart hstart, ?_, ?_⟩
  · rw [List.takeWhile_append_of_pos hmore, List.length_append, List.length_cons]
    omega
  · rintro rfl
    have hall : (more ++ []).takeWhile isIdentifierPart = more := by
      rw [List.takeWhile_append_of_pos hmore, List.takeWhile_nil, List.append_nil]
    rw [hall]
    exact ⟨rfl, rfl⟩

theorem integer_isReadAtFront {digits : List Char} (hne : digits ≠ [])
    (h : ∀ d ∈ digits, isDigit d = true) : IsReadAtFront digits .integer digits rest := by
  obtain ⟨d, ds, rfl⟩ := List.exists_cons_of_ne_nil hne
  obtain ⟨hd, hds⟩ := List.forall_mem_cons.mp h
  obtain ⟨kind, word, more, hnumber⟩ := numberLexeme_token d (ds ++ rest)
  have hlength := length_le_more_numberLexeme d (ds ++ rest)
  rw [hnumber, List.takeWhile_append_of_pos hds, List.length_append] at hlength
  refine ⟨d, ds ++ rest, kind, word, more, rfl, fun p => ?_, ?_, ?_⟩
  · rw [readLexeme_of_isDigit hd, hnumber]
  · rw [List.length_cons]
    exact Nat.succ_le_succ (Nat.le_trans (Nat.le_add_right _ _) hlength)
  · rintro rfl
    have hdrop : (ds ++ []).dropWhile isDigit = [] := by
      rw [List.append_nil, List.dropWhile_eq_nil_iff.mpr hds]
    have hpoint : ∀ e more, (ds ++ []).dropWhile isDigit = '.' :: e :: more → isDigit e = false :=
      fun e more heq => by rw [hdrop] at heq; cases heq
    rw [numberLexeme_integer hpoint, List.takeWhile_append_of_pos hds, List.takeWhile_nil,
      List.append_nil] at hnumber
    cases hnumber
    exact ⟨rfl, rfl⟩

theorem float_isReadAtFront {whole fraction : List Char} (hwhole : whole ≠ [])
    (hfraction : fraction ≠ []) (h : ∀ d ∈ whole, isDigit d = true)
    (h' : ∀ d ∈ fraction, isDigit d = true) :
    IsReadAtFront (whole ++ '.' :: fraction) .float (whole ++ '.' :: fraction) rest := by
  obtain ⟨d, ds, rfl⟩ := List.exists_cons_of_ne_nil hwhole
  obtain ⟨f, fs, rfl⟩ := List.exists_cons_of_ne_nil hfraction
  obtain ⟨hd, hds⟩ := List.forall_mem_cons.mp h
  obtain ⟨hf, hfs⟩ := List.forall_mem_cons.mp h'
  have hpoint : isDigit '.' = false := by decide
  have htake : (ds ++ '.' :: f :: (fs ++ rest)).takeWhile isDigit = ds := by
    rw [List.takeWhile_append_of_pos hds, List.takeWhile_cons_of_neg (by simp [hpoint]),
      List.append_nil]
  have hdrop : (ds ++ '.' :: f :: (fs ++ rest)).dropWhile isDigit =
      '.' :: f :: (fs ++ rest) := by
    rw [List.dropWhile_append_of_pos hds, List.dropWhile_cons_of_neg (by simp [hpoint])]
  have hnumber := numberLexeme_float (c := d) hf hdrop
  rw [htake, List.takeWhile_append_of_pos hfs] at hnumber
  refine ⟨d, ds ++ '.' :: f :: (fs ++ rest), _, _, _, by simp,
    fun p => by rw [readLexeme_of_isDigit hd, hnumber], ?_, ?_⟩
  · simp only [List.length_append, List.length_cons]
    omega
  · rintro rfl
    simp

theorem string_isReadAtFront {mark : Char} {body text : List Char}
    (hmark : mark = '"' ∨ mark = '\'') (h : Spells mark body text) :
    IsReadAtFront (mark :: body ++ [mark]) .string text rest := by
  have hbody := h.stringBody rest (ne_backslash_of_quote hmark)
  refine ⟨mark, body ++ mark :: rest, .string, String.ofList text, body.length + 1, by simp,
    fun p => ?_, by simp, fun _ => ⟨rfl, rfl⟩⟩
  rw [readLexeme_of_quote hmark, stringLexeme, hbody]

theorem equalsLexeme_token (rest : List Char) :
    ∃ kind word more, equalsLexeme rest = ⟨.token kind word, more⟩ ∧
      (rest = [] → kind = .symbol .equals ∧ word = String.ofList ['=']) := by
  unfold equalsLexeme
  split
  · exact ⟨_, _, _, rfl, nofun⟩
  · exact ⟨_, _, _, rfl, fun _ => ⟨rfl, rfl⟩⟩

/-- **Lexemes are read**, or longer ones in their place. -/
theorem IsLexeme.isReadAtFront (h : IsLexeme l kind content) (rest : List Char) :
    IsReadAtFront l kind content rest := by
  cases h with
  | equals =>
    obtain ⟨kind, word, more, heq, hend⟩ := equalsLexeme_token rest
    exact ⟨'=', rest, kind, word, more, rfl, fun p => by rw [readLexeme_equals, heq],
      Nat.succ_le_succ (Nat.zero_le _), hend⟩
  | arrow =>
    exact ⟨'=', '>' :: rest, _, _, 1, rfl, fun p => readLexeme_equals, Nat.le_refl _,
      fun _ => ⟨rfl, rfl⟩⟩
  | mark h =>
    exact ⟨_, rest, _, _, 0, rfl, fun p => readLexeme_of_ofChar? h, Nat.le_refl _,
      fun _ => ⟨rfl, text_of_ofChar? h⟩⟩
  | keyword word =>
    obtain ⟨c, more, htext, hstart, hmore⟩ := keyword_start word
    have hread : IsReadAtFront _ _ _ rest := word_isReadAtFront hstart hmore
    rwa [← htext, wordKind_text] at hread
  | identifier hstart hmore hword =>
    have hread : IsReadAtFront _ _ _ rest := word_isReadAtFront hstart hmore
    rwa [wordKind_of_ne hword] at hread
  | integer hne h => exact integer_isReadAtFront hne h
  | float hwhole hfraction h h' => exact float_isReadAtFront hwhole hfraction h h'
  | string hmark h => exact string_isReadAtFront hmark h

/-- A lexeme is of one kind and stands for one text. -/
theorem IsLexeme.unique {kind' : TokenKind} {content' : List Char} (h : IsLexeme l kind content)
    (h' : IsLexeme l kind' content') : kind' = kind ∧ content' = content := by
  obtain ⟨c, tail, k, word, _, heq, hread, -, hend⟩ := h.isReadAtFront []
  obtain ⟨c', tail', k', word', _, heq', hread', -, hend'⟩ := h'.isReadAtFront []
  cases heq.symm.trans heq'
  cases (hread .start).symm.trans (hread' .start)
  obtain ⟨rfl, rfl⟩ := hend rfl
  obtain ⟨rfl, htext⟩ := hend' rfl
  exact ⟨rfl, (String.ofList_injective htext).symm⟩

/-! ### What is read is a lexeme -/

/-- What is said of a read: `more` characters of `tail` complete a lexeme that starts with `c`. -/
def IsTaken (c : Char) (tail : List Char) (kind : TokenKind) (word : String) (more : Nat) : Prop :=
  ∃ front rest content, tail = front ++ rest ∧ more = front.length ∧
    word = String.ofList content ∧ IsLexeme (c :: front) kind content

theorem isTaken_of_equalsLexeme (h : equalsLexeme tail = ⟨.token kind word, more⟩) :
    IsTaken '=' tail kind word more := by
  unfold equalsLexeme at h
  split at h <;> cases h
  · next rest => exact ⟨['>'], rest, _, rfl, rfl, rfl, .arrow⟩
  · exact ⟨[], tail, _, rfl, rfl, rfl, .equals⟩

theorem isTaken_of_stringLexeme (hc : c = '"' ∨ c = '\'')
    (h : stringLexeme p c tail = .ok ⟨.token kind word, more⟩) :
    IsTaken c tail kind word more := by
  unfold stringLexeme at h
  split at h <;> cases h
  next hbody =>
  obtain ⟨body, rest, rfl, rfl, hspells⟩ := exists_spells_of_stringBody hbody
  exact ⟨body ++ [c], rest, _, List.append_cons .., by rw [List.length_append]; rfl, rfl,
    .string hc hspells⟩

theorem isTaken_of_numberLexeme (hc : isDigit c = true)
    (h : numberLexeme c tail = ⟨.token kind word, more⟩) : IsTaken c tail kind word more := by
  have hwhole : ∀ d ∈ c :: tail.takeWhile isDigit, isDigit d = true :=
    List.forall_mem_cons.mpr ⟨hc, fun d hd => List.mem_takeWhile_imp hd⟩
  have htail := List.takeWhile_append_dropWhile (p := isDigit) (l := tail)
  by_cases hfloat : ∃ d rest, tail.dropWhile isDigit = '.' :: d :: rest ∧ isDigit d = true
  · obtain ⟨d, rest, hrest, hd⟩ := hfloat
    rw [numberLexeme_float hd hrest] at h
    cases h
    have hfraction : ∀ e ∈ d :: rest.takeWhile isDigit, isDigit e = true :=
      List.forall_mem_cons.mpr ⟨hd, fun e he => List.mem_takeWhile_imp he⟩
    refine ⟨tail.takeWhile isDigit ++ '.' :: d :: rest.takeWhile isDigit,
      rest.dropWhile isDigit, _, ?_, ?_, rfl,
      .float (List.cons_ne_nil _ _) (List.cons_ne_nil _ _) hwhole hfraction⟩
    · rw [List.append_assoc, List.cons_append, List.cons_append, List.takeWhile_append_dropWhile,
        ← hrest, htail]
    · simp only [List.length_append, List.length_cons]
      omega
  · rw [numberLexeme_integer fun d rest heq => by
      simpa using fun hd => hfloat ⟨d, rest, heq, hd⟩] at h
    cases h
    exact ⟨_, _, _, htail.symm, rfl, rfl, .integer (List.cons_ne_nil _ _) hwhole⟩

theorem isTaken_of_wordLexeme (hc : isIdentifierStart c = true)
    (h : wordLexeme c tail = ⟨.token kind word, more⟩) : IsTaken c tail kind word more := by
  rw [wordLexeme_eq] at h
  cases h
  exact ⟨_, _, _, List.takeWhile_append_dropWhile.symm, rfl, rfl,
    isLexeme_word hc fun x hx => List.mem_takeWhile_imp hx⟩

/-- **Only lexemes are read.** -/
theorem isTaken_of_read (h : readLexeme p c tail = .ok ⟨.token kind word, more⟩) :
    IsTaken c tail kind word more := by
  unfold readLexeme at h
  split at h
  · cases h
  split at h
  · exact absurd h (slashLexeme_ne_token)
  split at h
  · next hc =>
    subst hc
    exact isTaken_of_equalsLexeme (Except.ok.inj h)
  split at h
  · next mark hmark =>
    cases h
    exact ⟨[], tail, [c], rfl, rfl, text_of_ofChar? hmark, .mark hmark⟩
  split at h
  · next hc => exact isTaken_of_stringLexeme hc h
  split at h
  · next hc => exact isTaken_of_numberLexeme hc (Except.ok.inj h)
  split at h
  · next hc => exact isTaken_of_wordLexeme hc (Except.ok.inj h)
  · cases h

/-! ### The longest lexeme -/

/-- **The longest lexeme is read**, whatever its place is. -/
theorem IsLongest.read (h : IsLongest l kind content rest) :
    ∃ c front, l = c :: front ∧ ∀ p, readLexeme p c (front ++ rest) =
      .ok ⟨.token kind (String.ofList content), front.length⟩ := by
  obtain ⟨c, tail, kind', word, more, heq, hread, hlength, -⟩ :=
    h.lexeme.isReadAtFront rest
  obtain ⟨front, rest', content', rfl, rfl, rfl, hlexeme⟩ := isTaken_of_read (hread .start)
  have hfront : c :: front <+: l ++ rest := heq ▸ List.prefix_append (c :: front) rest'
  have hle := h.longest hlexeme hfront
  obtain ⟨rfl, rfl⟩ := List.append_inj heq (Nat.le_antisymm hlength hle)
  obtain ⟨rfl, rfl⟩ := h.lexeme.unique hlexeme
  exact ⟨c, front, rfl, hread⟩

/-- **What is read is the longest lexeme.** -/
theorem isLongest_of_read (h : readLexeme p c tail = .ok ⟨.token kind word, more⟩) :
    ∃ front rest content, tail = front ++ rest ∧ more = front.length ∧
      word = String.ofList content ∧ IsLongest (c :: front) kind content rest := by
  obtain ⟨front, rest, content, rfl, rfl, rfl, hlexeme⟩ := isTaken_of_read h
  refine ⟨front, rest, content, rfl, rfl, rfl, hlexeme, ?_⟩
  rintro l' kind' content' hlexeme' ⟨rest', heq⟩
  obtain ⟨c', tail', _, _, more', heq', hread', hlength, -⟩ :=
    hlexeme'.isReadAtFront rest'
  cases heq'.symm.trans heq
  cases (hread' p).symm.trans h
  exact hlength

/-- What is read to its end is a longest lexeme. -/
theorem isLongest_of_readLexeme (c : Char) (more : List Char)
    (h : readLexeme .start c (more ++ tail) = .ok ⟨.token kind word, more.length⟩) :
    IsLongest (c :: more) kind word.toList tail := by
  obtain ⟨front, rest, content', happend, hlength, rfl, hlongest⟩ := isLongest_of_read h
  obtain ⟨rfl, rfl⟩ := List.append_inj happend hlength
  rwa [String.toList_ofList]

end Lexical

end DeclaredSchema
