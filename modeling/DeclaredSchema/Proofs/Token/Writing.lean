import DeclaredSchema.Proofs.Number.Decimal
import DeclaredSchema.Proofs.Token.Cut

/-!
# Writing tokens

A sequence of words is written down with any blanks between them, and with at least one blank where
two words would run together. The scan of the text gives the words back. So whoever writes a file
only has to choose its words.

## Main definitions

* `Word` — a token that is to be written, and how it is written
* `Word.runsInto` — whether a word would go on with a character behind it
* `lineUp`, `written` — words as a text
* `Shows` — tokens that are given words

## Main results

* `Word.isLongest` — a word is read to its end and no further
* `exists_shows_of_written` — the scan of written words shows the words
-/

namespace DeclaredSchema

open Text Lexical

namespace Rendering

/-! ### Words -/

/-- What the scan turns into a token. An integer is written without a sign. -/
inductive Word where
  | name (text : String)
  | mark (symbol : Symbol)
  | quoted (text : String)
  | digits (n : Nat)
  deriving DecidableEq, Repr

/-- Whether a text is an identifier or a keyword. -/
def isWord (text : String) : Bool :=
  match text.toList with
  | [] => false
  | c :: more => isIdentifierStart c && more.all isIdentifierPart

/-- A character between double quotes: as an escape, if there is one. -/
def escaped : Char → List Char
  | '\n' => ['\\', 'n']
  | '\t' => ['\\', 't']
  | '\r' => ['\\', 'r']
  | '\\' => ['\\', '\\']
  | '"' => ['\\', '"']
  | '\x00' => ['\\', '0']
  | c => [c]

namespace Word

/-- The characters of a word. -/
def characters : Word → List Char
  | name text => text.toList
  | mark symbol => symbol.text.toList
  | quoted text => '"' :: text.toList.flatMap escaped ++ ['"']
  | digits n => Nat.toDigits 10 n

def kind : Word → TokenKind
  | name text => wordKind text.toList
  | mark symbol => .symbol symbol
  | quoted _ => .string
  | digits _ => .integer

/-- What the token of a word says. -/
def content : Word → String
  | name text => text
  | mark symbol => symbol.text
  | quoted text => text
  | digits n => String.ofList (Nat.toDigits 10 n)

/-- Names are identifiers or keywords. -/
def IsWhole : Word → Prop
  | name text => isWord text = true
  | mark _ | quoted _ | digits _ => True

/-- Whether the word would go on if `c` stood behind it, or be read as another one. -/
def runsInto (c : Char) : Word → Bool
  | name _ => isIdentifierPart c
  | mark .equals => c = '>'
  | digits _ => isDigit c || c = '.'
  | mark _ | quoted _ => false

end Word

/-! ### Texts -/

/-- What may stand between words. -/
inductive Blank where
  | space | tab | carriageReturn | lineFeed
  deriving DecidableEq, Repr

def Blank.char : Blank → Char
  | space => ' '
  | tab => '\t'
  | carriageReturn => '\r'
  | lineFeed => '\n'

/-- The blanks between a word and the text behind it. If the word would run into the text, there is
a blank even where none is asked for. -/
def blanksBehind (w : Word) (text : List Char) (blanks : List Blank) : List Blank :=
  if blanks = [] ∧ text.head?.any w.runsInto = true then [.space] else blanks

/-- Words with blanks behind them; those behind the first word come first in the layout. -/
def lineUp (layout : Nat → List Blank) : List Word → List Char
  | [] => []
  | w :: rest =>
    let text := lineUp (fun k => layout (k + 1)) rest
    w.characters ++ (blanksBehind w text (layout 0)).map Blank.char ++ text

/-- Words as a text, with blanks before, between and behind them. -/
def written (layout : Nat → List Blank) (words : List Word) : String :=
  String.ofList ((layout 0).map Blank.char ++ lineUp (fun k => layout (k + 1)) words)

/-- The tokens before `rest` are those of the words, and have no documentation. -/
inductive Shows : List Word → List Token → List Token → Prop
  | nil {ts : List Token} : Shows [] ts ts
  | cons {w : Word} {ws : List Word} {t : Token} {ts rest : List Token} (hkind : t.kind = w.kind)
      (htext : t.text = w.content) (hdoc : t.doc = none) (h : Shows ws ts rest) :
      Shows (w :: ws) (t :: ts) rest

variable {w : Word} {ws ws' : List Word} {ts rest : List Token} {c : Char} {more tail : List Char}
  {p : Position}

/-! ### Tokens of words -/

theorem shows_append : Shows (ws ++ ws') ts rest ↔ ∃ us, Shows ws ts us ∧ Shows ws' us rest := by
  constructor
  · intro h
    induction ws generalizing ts with
    | nil => exact ⟨ts, .nil, h⟩
    | cons w ws ih =>
      obtain _ | ⟨hkind, htext, hdoc, h⟩ := h
      obtain ⟨us, hws, hws'⟩ := ih h
      exact ⟨us, .cons hkind htext hdoc hws, hws'⟩
  · rintro ⟨us, hws, hws'⟩
    induction hws with
    | nil => exact hws'
    | cons hkind htext hdoc _ ih => exact .cons hkind htext hdoc (ih hws')

theorem Shows.exists_cons (h : Shows (w :: ws) ts rest) :
    ∃ t us, ts = t :: us ∧ t.kind = w.kind ∧ t.text = w.content ∧ t.doc = none ∧
      Shows ws us rest := by
  obtain _ | ⟨hkind, htext, hdoc, h⟩ := h
  exact ⟨_, _, rfl, hkind, htext, hdoc, h⟩

/-! ### Words are read to their end -/

theorem isWord_iff {text : String} : isWord text = true ↔ ∃ c more, text.toList = c :: more ∧
    isIdentifierStart c = true ∧ ∀ x ∈ more, isIdentifierPart x = true := by
  rw [isWord]
  split
  · next h => simp [h]
  · next c more h => simp [h]

theorem isWord_keyword (k : Keyword) : isWord k.text = true := isWord_iff.mpr (keyword_start k)

/-- A run of characters of a class ends before a character that is not of the class. -/
theorem takeWhile_append_of_head {q : Char → Bool} (hmore : ∀ x ∈ more, q x = true)
    (htail : tail.head?.any q = false) :
    (more ++ tail).takeWhile q = more ∧ (more ++ tail).dropWhile q = tail := by
  rw [List.takeWhile_append_of_pos hmore, List.dropWhile_append_of_pos hmore]
  cases tail with
  | nil => exact ⟨List.append_nil _, rfl⟩
  | cons c tail =>
    have hc : ¬ q c = true := by simpa using htail
    rw [List.takeWhile_cons_of_neg hc, List.dropWhile_cons_of_neg hc]
    exact ⟨List.append_nil _, rfl⟩

theorem isLongest_name {text : String} (h : isWord text = true)
    (htail : tail.head?.any isIdentifierPart = false) :
    IsLongest text.toList (wordKind text.toList) text.toList tail := by
  obtain ⟨c, more, htext, hstart, hmore⟩ := isWord_iff.mp h
  have hread : readLexeme .start c (more ++ tail) =
      .ok ⟨.token (wordKind text.toList) text, more.length⟩ := by
    rw [readLexeme_of_isIdentifierStart hstart, wordLexeme_eq,
      (takeWhile_append_of_head hmore htail).1, ← htext, String.ofList_toList]
  have hlongest := isLongest_of_readLexeme c more hread
  rwa [htext] at hlongest ⊢

/-- Equals sign and arrow apart, a mark is a single character. -/
theorem exists_char_of_symbol {symbol : Symbol} (hequals : symbol ≠ .equals)
    (harrow : symbol ≠ .arrow) :
    ∃ c, symbol.text.toList = [c] ∧ Symbol.ofChar? c = some symbol := by
  cases symbol <;> first | contradiction | exact ⟨_, rfl, by decide⟩

theorem isLongest_mark {symbol : Symbol}
    (htail : tail.head?.any (Word.mark symbol).runsInto = false) :
    IsLongest symbol.text.toList (.symbol symbol) symbol.text.toList tail := by
  by_cases hequals : symbol = .equals
  · subst hequals
    refine isLongest_of_readLexeme '=' [] ?_
    rw [readLexeme_equals, List.nil_append, equalsLexeme]
    · rfl
    · rintro rest rfl
      simp [Word.runsInto] at htail
  by_cases harrow : symbol = .arrow
  · subst harrow
    exact isLongest_of_readLexeme '=' ['>'] readLexeme_equals
  · obtain ⟨c, htext, hc⟩ := exists_char_of_symbol hequals harrow
    have hread : readLexeme .start c ([] ++ tail) = .ok ⟨.token (.symbol symbol) symbol.text, 0⟩ :=
      readLexeme_of_ofChar? hc
    have hlongest := isLongest_of_readLexeme c [] hread
    rwa [htext] at hlongest ⊢

/-- A character is written as its escape, or stands for itself. -/
theorem escaped_cases (c : Char) :
    (∃ e, escaped c = ['\\', e] ∧ escapeValue? e = some c) ∨
      (escaped c = [c] ∧ c ≠ '"' ∧ c ≠ '\n' ∧ c ≠ '\\') := by
  unfold escaped
  split
  case h_7 hline _ _ hbackslash hquote _ => exact .inr ⟨rfl, hquote, hline, hbackslash⟩
  all_goals exact .inl ⟨_, rfl, rfl⟩

/-- Any text can be written between quotes. -/
theorem spells_escaped (text : List Char) : Spells '"' (text.flatMap escaped) text := by
  induction text with
  | nil => exact .nil
  | cons c text ih =>
    rw [List.flatMap_cons]
    obtain ⟨e, hc, he⟩ | ⟨hc, hquote, hline, hbackslash⟩ := escaped_cases c
    · rw [hc]
      exact .escape he ih
    · rw [hc]
      exact .plain hquote hline hbackslash ih

theorem isLongest_quoted (text : String) :
    IsLongest ('"' :: text.toList.flatMap escaped ++ ['"']) .string text.toList tail := by
  have hbody := (spells_escaped text.toList).stringBody tail (by decide)
  refine isLongest_of_readLexeme '"' (text.toList.flatMap escaped ++ ['"']) ?_
  rw [readLexeme_of_quote (.inl rfl), List.append_assoc, List.singleton_append, stringLexeme, hbody]
  simp only [String.ofList_toList, List.length_append, List.length_singleton]

theorem isDigit_of_mem_toDigits {n : Nat} (hc : c ∈ Nat.toDigits 10 n) : isDigit c = true := by
  have hdigit := Nat.isDigit_of_mem_toDigits (by decide) (by decide) hc
  rw [isDigit, isDecimal_of_isDigit hdigit, Bool.true_or]

theorem isLongest_digits {n : Nat} (htail : tail.head?.any (Word.digits n).runsInto = false) :
    IsLongest (Nat.toDigits 10 n) .integer (Nat.toDigits 10 n) tail := by
  obtain ⟨c, more, hdigits⟩ := List.exists_cons_of_ne_nil (Nat.toDigits_ne_nil (n := n) (b := 10))
  have hall : ∀ x ∈ c :: more, isDigit x = true := fun x hx =>
    isDigit_of_mem_toDigits (hdigits ▸ hx)
  obtain ⟨hc, hmore⟩ := List.forall_mem_cons.mp hall
  have hhead : tail.head?.any isDigit = false := by
    rw [Option.any_eq_false] at htail ⊢
    intro x hx
    have hword : isDigit x = false ∧ x ≠ '.' := by simpa [Word.runsInto] using htail x hx
    simp [hword.1]
  obtain ⟨htake, hdrop⟩ := takeWhile_append_of_head hmore hhead
  have hread : readLexeme .start c (more ++ tail) =
      .ok ⟨.token .integer (String.ofList (c :: more)), more.length⟩ := by
    rw [readLexeme_of_isDigit hc, numberLexeme_integer, htake]
    intro d rest heq
    rw [hdrop] at heq
    subst heq
    simp [Word.runsInto] at htail
  have hlongest := isLongest_of_readLexeme c more hread
  rwa [String.toList_ofList, ← hdigits] at hlongest

/-- **A word is read to its end and no further**, unless it runs into what stands behind it. -/
theorem Word.isLongest (hw : w.IsWhole) (htail : tail.head?.any w.runsInto = false) :
    IsLongest w.characters w.kind w.content.toList tail := by
  cases w with
  | name text => exact isLongest_name hw htail
  | mark symbol => exact isLongest_mark htail
  | quoted text => exact isLongest_quoted text
  | digits n =>
    rw [content, String.toList_ofList]
    exact isLongest_digits htail

/-! ### Texts are read back -/

theorem Blank.isGap (b : Blank) : isGap b.char = true := by
  cases b <;> decide

/-- No word runs into a blank. -/
theorem Word.runsInto_blank (w : Word) (b : Blank) : w.runsInto b.char = false := by
  unfold runsInto
  split
  · cases b <;> decide +kernel
  · cases b <;> decide
  · cases b <;> decide +kernel
  · rfl
  · rfl

/-- Blanks pass the scan. -/
theorem scanFrom_blanks (p : Position) (blanks : List Blank) (text : List Char) :
    ∃ p', scanFrom p none (blanks.map Blank.char ++ text) = scanFrom p' none text := by
  induction blanks generalizing p with
  | nil => exact ⟨p, rfl⟩
  | cons b blanks ih =>
    obtain ⟨p', h⟩ := ih (p.after [b.char])
    refine ⟨p', ?_⟩
    rw [← h, List.map_cons, List.cons_append, scanFrom, readLexeme, if_pos b.isGap]
    rfl

theorem head?_blanksBehind (w : Word) (text : List Char) (blanks : List Blank) :
    ((blanksBehind w text blanks).map Blank.char ++ text).head?.any w.runsInto = false := by
  unfold blanksBehind
  split
  · exact w.runsInto_blank .space
  · next hfree =>
    cases blanks with
    | nil => simpa using hfree
    | cons b blanks => exact w.runsInto_blank b

/-- Words in a text are scanned to tokens that show them. -/
theorem exists_shows_of_lineUp (p : Position) (layout : Nat → List Blank)
    (h : ∀ w ∈ ws, w.IsWhole) :
    ∃ ts p', scanFrom p none (lineUp layout ws) = .ok ts ∧ Shows ws ts [Token.endAt p'] := by
  induction ws generalizing p layout with
  | nil => exact ⟨_, p, by rw [lineUp, scanFrom], .nil⟩
  | cons w ws ih =>
    obtain ⟨hw, hws⟩ := List.forall_mem_cons.mp h
    rw [lineUp]
    set text := lineUp (fun k => layout (k + 1)) ws
    have hlongest := w.isLongest hw (head?_blanksBehind w text (layout 0))
    obtain ⟨p', hblanks⟩ :=
      scanFrom_blanks (p.after w.characters) (blanksBehind w text (layout 0)) text
    obtain ⟨ts, p'', hscan, hshows⟩ := ih p' (fun k => layout (k + 1)) hws
    refine ⟨⟨w.kind, w.content, p, none⟩ :: ts, p'', ?_, .cons rfl rfl rfl hshows⟩
    rw [List.append_assoc, scanFrom_lexeme hlongest, hblanks, hscan, String.ofList_toList]
    rfl

/-- **What is written is read back**, with any blanks between the words. -/
theorem exists_shows_of_written (layout : Nat → List Blank) (h : ∀ w ∈ ws, w.IsWhole) :
    ∃ ts last, scan (written layout ws) = .ok ts ∧ last.kind = .endOfFile ∧
      Shows ws ts [last] := by
  obtain ⟨p, hblanks⟩ := scanFrom_blanks .start (layout 0) (lineUp (fun k => layout (k + 1)) ws)
  obtain ⟨ts, p', hscan, hshows⟩ := exists_shows_of_lineUp p (fun k => layout (k + 1)) h
  refine ⟨ts, Token.endAt p', ?_, rfl, hshows⟩
  rw [scan, written, String.toList_ofList, hblanks, hscan]

end Rendering

end DeclaredSchema
