import DeclaredSchema.Proofs.Token.Cut
import Mathlib.Data.List.DropRight
import Mathlib.Data.List.Infix

/-!
# Documentation survives its comment

A text is written into a documentation comment line by line, behind margins and gutters that the
author chooses freely, and perhaps with annotations below it. The token that follows the comment
carries the text as it was before it was written: no line is lost, and nothing of the margins, of
the gutters or of the annotations stays. The end of the file is the one token that carries nothing.

## Main definitions

* `IsText` — the texts that can be told from gutters, margins and annotations
* `IsLineOf`, `IsDocComment` — how a line, and how a whole text, is written

## Main results

* `clean_docBody` — the text of a comment is the one that was written
* `scan_documented` — the token behind a comment carries that text
* `end_not_documented` — the end of the file does not
-/

namespace DeclaredSchema

namespace Lexical

open Text

/-! ### Texts and comments -/

/-- No white space stands at either end. -/
structure IsTrimmed (l : List Char) : Prop where
  front : ∀ c ∈ l.head?, isBlank c = false
  back : ∀ c ∈ l.getLast?, isBlank c = false

/-- A line that is taken for what it is wherever a line may stand in a comment. -/
structure IsTextLine (line : List Char) : Prop where
  unbroken : ∀ c ∈ line, isLineBreak c = false
  unclosed : ¬['*', '/'] <:+: line
  trimmed : IsTrimmed line
  no_gutter : line.head? ≠ some '*'
  no_tag : line.head? ≠ some '@'

/-- Lines of text, with something to say in the first and in the last. -/
structure IsText (text : List (List Char)) : Prop where
  nonempty : text ≠ []
  line : ∀ line ∈ text, IsTextLine line
  first : text.head? ≠ some []
  last : text.getLast? ≠ some []

instance (line : List Char) : Decidable (IsTextLine line) :=
  decidable_of_iff (line.all (!isLineBreak ·) = true ∧ ¬['*', '/'] <:+: line ∧
      line.head?.all (!isBlank ·) = true ∧ line.getLast?.all (!isBlank ·) = true ∧
      line.head? ≠ some '*' ∧ line.head? ≠ some '@') <| by
    simp only [List.all_eq_true, Option.all_eq_true, Bool.not_eq_true']
    exact ⟨fun ⟨hbreak, hclose, hfront, hback, hgutter, htag⟩ =>
        ⟨hbreak, hclose, ⟨hfront, hback⟩, hgutter, htag⟩,
      fun ⟨hbreak, hclose, ⟨hfront, hback⟩, hgutter, htag⟩ =>
        ⟨hbreak, hclose, hfront, hback, hgutter, htag⟩⟩

instance (text : List (List Char)) : Decidable (IsText text) :=
  decidable_of_iff (text ≠ [] ∧ (∀ line ∈ text, IsTextLine line) ∧ text.head? ≠ some [] ∧
      text.getLast? ≠ some [])
    ⟨fun ⟨hne, hline, hfirst, hlast⟩ => ⟨hne, hline, hfirst, hlast⟩,
      fun ⟨hne, hline, hfirst, hlast⟩ => ⟨hne, hline, hfirst, hlast⟩⟩

/-- Spaces and tabs. -/
def IsMargin (margin : List Char) : Prop := ∀ c ∈ margin, c = ' ' ∨ c = '\t'

/-- How a line can be written: behind a margin, and perhaps a gutter. The gutter of an empty line
may be bare. -/
inductive IsLineOf : List Char → List Char → Prop
  | plain {margin line : List Char} (h : IsMargin margin) : IsLineOf line (margin ++ line)
  | gutter {margin line : List Char} (h : IsMargin margin) :
      IsLineOf line (margin ++ '*' :: ' ' :: line)
  | bare {margin : List Char} (h : IsMargin margin) : IsLineOf [] (margin ++ ['*'])

/-- Lines that do not close a comment, and of which the first is an annotation. -/
structure AreTags (tags : List (List Char)) : Prop where
  unclosed : ∀ line ∈ tags, ¬['*', '/'] <:+: line
  first : ∀ line ∈ tags.head?, ∃ tag, IsLineOf ('@' :: tag) line

/-- Each line with a line feed behind it. -/
def closedLines (parts : List (List Char)) : List Char := parts.flatMap (· ++ ['\n'])

/-- What stands between the opening and the closing mark of a documentation comment. The first line
holds nothing, and the last nothing but a margin. -/
def docBody (written tags : List (List Char)) (margin : List Char) : List Char :=
  '\n' :: (closedLines (written ++ tags) ++ margin)

/-- A comment that a text is written into. -/
inductive IsDocComment (text : List (List Char)) : List Char → Prop
  | intro {written tags : List (List Char)} {margin : List Char}
      (hwritten : List.Forall₂ IsLineOf text written) (htags : AreTags tags)
      (hmargin : IsMargin margin) :
      IsDocComment text ('/' :: '*' :: '*' :: docBody written tags margin ++ ['*', '/'])

variable {l rest a b line written margin tag : List Char} {text tags : List (List Char)} {c : Char}

/-! ### White space at the ends -/

theorem trim_append_left (ha : ∀ c ∈ a, isBlank c = true) : trim (a ++ l) = trim l := by
  rw [trim, List.dropWhile_append_of_pos ha, trim]

theorem trim_cons (hc : isBlank c = false) : trim (c :: l) = trimRight (c :: l) := by
  rw [trim, List.dropWhile_cons_of_neg (by simp [hc])]

theorem trimRight_append_right (hb : ∀ c ∈ b, isBlank c = true) :
    trimRight (l ++ b) = trimRight l := by
  have hreverse : ∀ c ∈ b.reverse, isBlank c = true := fun c hc => hb c (List.mem_reverse.mp hc)
  rw [trimRight, List.reverse_append, List.dropWhile_append_of_pos hreverse, trimRight]

/-- Nothing before a character that is not white space is taken from the end. -/
theorem trimRight_append_cons (hc : isBlank c = false) :
    trimRight (a ++ c :: l) = a ++ c :: trimRight l := by
  induction l using List.reverseRecOn with
  | nil => exact List.rdropWhile_concat_neg isBlank a c (by simp [hc])
  | append_singleton l d ih =>
    rw [← List.cons_append, ← List.append_assoc]
    by_cases hd : isBlank d = true
    · have hdrop : ∀ x, trimRight (x ++ [d]) = trimRight x := fun x =>
        List.rdropWhile_concat_pos isBlank x d hd
      rw [hdrop, hdrop, ih]
    · have hkeep : ∀ x, trimRight (x ++ [d]) = x ++ [d] := fun x =>
        List.rdropWhile_concat_neg isBlank x d hd
      rw [hkeep, hkeep, List.append_assoc, List.cons_append]

theorem IsTrimmed.trimRight_append (hl : IsTrimmed l) (hne : l ≠ []) :
    trimRight (a ++ l) = a ++ l := by
  refine List.rdropWhile_eq_self_iff.mpr fun _ => ?_
  have hlast := hl.back _ (List.getLast?_eq_some_getLast hne)
  rw [List.getLast_append_of_ne_nil _ hne, hlast]
  exact Bool.false_ne_true

theorem IsTrimmed.trim_between (hl : IsTrimmed l) (ha : ∀ c ∈ a, isBlank c = true)
    (hb : ∀ c ∈ b, isBlank c = true) : trim (a ++ (l ++ b)) = l := by
  rw [trim_append_left ha]
  cases l with
  | nil =>
    have hall := trim_append_left (l := []) hb
    rwa [List.append_nil] at hall
  | cons c l =>
    rw [List.cons_append, trim_cons (hl.front c rfl), ← List.cons_append,
      trimRight_append_right hb]
    exact hl.trimRight_append (a := []) (List.cons_ne_nil c l)

theorem IsMargin.isBlank (h : IsMargin margin) : ∀ c ∈ margin, isBlank c = true := by
  intro c hc
  rcases h c hc with rfl | rfl <;> decide

theorem IsMargin.unbroken (h : IsMargin margin) : ∀ c ∈ margin, isLineBreak c = false := by
  intro c hc
  rcases h c hc with rfl | rfl <;> decide

/-! ### Lines without their gutters -/

theorem withoutGutter_gutter (hmargin : IsMargin margin) :
    Doc.withoutGutter (margin ++ '*' :: l) = trim (trimRight l) := by
  have hstar : trim (margin ++ '*' :: l) = '*' :: trimRight l := by
    rw [trim_append_left hmargin.isBlank, trim_cons (by decide)]
    exact trimRight_append_cons (a := []) (by decide)
  simp only [Doc.withoutGutter, hstar]

theorem withoutGutter_plain (h : (trim l).head? ≠ some '*') : Doc.withoutGutter l = trim l := by
  rw [Doc.withoutGutter]
  split
  · next heq => simp [heq] at h
  · rfl

/-- **A line is found again** without the margin and the gutter that it was written behind. -/
theorem IsLineOf.withoutGutter (h : IsLineOf line written) (hline : IsTrimmed line)
    (hstar : line.head? ≠ some '*') : Doc.withoutGutter written = line := by
  cases h with
  | @plain margin _ hmargin =>
    have htrim : trim (margin ++ line) = line := by
      simpa using hline.trim_between (b := []) hmargin.isBlank nofun
    rw [withoutGutter_plain (by rwa [htrim]), htrim]
  | gutter hmargin =>
    rw [withoutGutter_gutter hmargin]
    by_cases hne : line = []
    · subst hne
      decide
    · have hmargin' : IsMargin [' '] := by simp [IsMargin]
      have hkeep : trimRight (' ' :: line) = ' ' :: line := hline.trimRight_append (a := [' ']) hne
      rw [hkeep]
      simpa using hline.trim_between (b := []) hmargin'.isBlank nofun
  | bare hmargin => exact withoutGutter_gutter hmargin

theorem IsLineOf.withoutGutter_tag (h : IsLineOf ('@' :: tag) written) :
    Doc.startsWithAt (Doc.withoutGutter written) = true := by
  have hat : ∀ l, trimRight ('@' :: l) = '@' :: trimRight l := fun l =>
    trimRight_append_cons (a := []) (by decide)
  cases h with
  | @plain margin _ hmargin =>
    have htrim : trim (margin ++ '@' :: tag) = '@' :: trimRight tag := by
      rw [trim_append_left hmargin.isBlank, trim_cons (by decide), hat]
    rw [withoutGutter_plain (by simp [htrim]), htrim]
    rfl
  | gutter hmargin =>
    have hspace : trimRight (' ' :: '@' :: tag) = ' ' :: '@' :: trimRight tag :=
      trimRight_append_cons (a := [' ']) (by decide)
    have htrim : trim (' ' :: '@' :: trimRight tag) = trim ('@' :: trimRight tag) :=
      trim_append_left (a := [' ']) (List.forall_mem_singleton.mpr (by decide))
    rw [withoutGutter_gutter hmargin, hspace, htrim, trim_cons (by decide), hat]
    rfl

/-! ### A comment is cut into the lines that were written -/

/-- A piece without a line break goes to the front of the first line that is cut off behind it. -/
theorem lines_append (hne : l ≠ []) (h : ∀ c ∈ l, isLineBreak c = false) (rest : List Char) :
    lines (l ++ rest) = (l ++ (lines rest).headD []) :: (lines rest).tail := by
  induction l with
  | nil => exact absurd rfl hne
  | cons c l ih =>
    obtain ⟨hc, hl⟩ := List.forall_mem_cons.mp h
    have hreturn : ∀ more, c = '\r' → l ++ rest = '\n' :: more → False := by
      rintro more rfl -
      exact absurd hc (by decide)
    rw [List.cons_append, lines.eq_3 _ _ hreturn, if_neg (by simp [hc])]
    by_cases hl' : l = []
    · subst hl'
      rw [List.nil_append]
      cases lines rest <;> rfl
    · rw [ih hl' hl]
      rfl

theorem lines_lineFeed (rest : List Char) : lines ('\n' :: rest) = [] :: lines rest := by
  rw [lines.eq_3 _ _ fun _ h => absurd h (by decide), if_pos (by decide)]

theorem lines_closedLines {parts : List (List Char)}
    (h : ∀ line ∈ parts, ∀ c ∈ line, isLineBreak c = false) (rest : List Char) :
    lines (closedLines parts ++ rest) = parts ++ lines rest := by
  induction parts with
  | nil => rfl
  | cons line parts ih =>
    obtain ⟨hline, hparts⟩ := List.forall_mem_cons.mp h
    rw [closedLines, List.flatMap_cons, List.append_assoc, List.append_assoc,
      List.singleton_append, ← closedLines]
    by_cases hne : line = []
    · subst hne
      rw [List.nil_append, lines_lineFeed, ih hparts, List.cons_append]
    · rw [lines_append hne hline, lines_lineFeed, ih hparts, List.headD_cons, List.append_nil,
        List.tail_cons, List.cons_append]

theorem IsLineOf.unbroken (h : IsLineOf line written) (hline : ∀ c ∈ line, isLineBreak c = false) :
    ∀ c ∈ written, isLineBreak c = false := by
  cases h with
  | plain hmargin => exact List.forall_mem_append.mpr ⟨hmargin.unbroken, hline⟩
  | gutter hmargin =>
    refine List.forall_mem_append.mpr ⟨hmargin.unbroken, ?_⟩
    exact List.forall_mem_cons.mpr ⟨by decide, List.forall_mem_cons.mpr ⟨by decide, hline⟩⟩
  | bare hmargin =>
    have hstar : ∀ c ∈ ['*'], isLineBreak c = false := List.forall_mem_singleton.mpr (by decide)
    exact List.forall_mem_append.mpr ⟨hmargin.unbroken, hstar⟩

/-- An annotation is still one when it is cut off at its first line break. -/
theorem IsLineOf.lines_tag (h : IsLineOf ('@' :: tag) written) (rest : List Char) :
    ∃ tag' written' more, lines (written ++ rest) = written' :: more ∧
      IsLineOf ('@' :: tag') written' := by
  have hat : ∀ c ∈ ['@'], isLineBreak c = false := List.forall_mem_singleton.mpr (by decide)
  cases h with
  | @plain margin _ hmargin =>
    have hfront : IsLineOf ['@'] (margin ++ ['@']) := .plain hmargin
    have hlines := lines_append (by simp) (hfront.unbroken hat) (tag ++ rest)
    refine ⟨(lines (tag ++ rest)).headD [], _, (lines (tag ++ rest)).tail, ?_, .plain hmargin⟩
    simpa using hlines
  | @gutter margin _ hmargin =>
    have hfront : IsLineOf ['@'] (margin ++ '*' :: ' ' :: ['@']) := .gutter hmargin
    have hlines := lines_append (by simp) (hfront.unbroken hat) (tag ++ rest)
    refine ⟨(lines (tag ++ rest)).headD [], _, (lines (tag ++ rest)).tail, ?_, .gutter hmargin⟩
    simpa using hlines

/-- What holds of every line as it is written. -/
theorem forall_written {written : List (List Char)} {q : List Char → Prop}
    (htext : ∀ line ∈ text, IsTextLine line) (h : List.Forall₂ IsLineOf text written)
    (hq : ∀ {line piece}, IsTextLine line → IsLineOf line piece → q piece) :
    ∀ piece ∈ written, q piece := by
  induction h with
  | nil => nofun
  | cons hline _ ih =>
    obtain ⟨hfirst, hmore⟩ := List.forall_mem_cons.mp htext
    exact List.forall_mem_cons.mpr ⟨hq hfirst hline, ih hmore⟩

theorem map_withoutGutter {written : List (List Char)} (htext : ∀ line ∈ text, IsTextLine line)
    (h : List.Forall₂ IsLineOf text written) : written.map Doc.withoutGutter = text := by
  induction h with
  | nil => rfl
  | cons hline _ ih =>
    obtain ⟨hfirst, hmore⟩ := List.forall_mem_cons.mp htext
    rw [List.map_cons, hline.withoutGutter hfirst.trimmed hfirst.no_gutter, ih hmore]

/-- What is read below the text: nothing, or a line that is empty. -/
theorem textLines_below (htags : AreTags tags) (hmargin : IsMargin margin) :
    (((lines (closedLines tags ++ margin)).map Doc.withoutGutter).takeWhile
      fun line => !Doc.startsWithAt line) ∈ [[], [[]]] := by
  cases tags with
  | nil =>
    by_cases hne : margin = []
    · subst hne
      decide
    · have hempty : Doc.withoutGutter margin = [] := by
        have hplain : IsLineOf [] (margin ++ []) := .plain hmargin
        simpa using hplain.withoutGutter ⟨nofun, nofun⟩ nofun
      have hlines := lines_append hne hmargin.unbroken []
      rw [List.append_nil] at hlines
      rw [closedLines, List.flatMap_nil, List.nil_append, hlines]
      simp [hempty, Doc.startsWithAt]
  | cons first tags =>
    obtain ⟨tag, hfirst⟩ := htags.first first rfl
    obtain ⟨tag', first', more, hlines, hfirst'⟩ :=
      hfirst.lines_tag ('\n' :: closedLines tags ++ margin)
    have hfront : closedLines (first :: tags) ++ margin =
        first ++ ('\n' :: closedLines tags ++ margin) := by
      simp [closedLines]
    rw [hfront, hlines, List.map_cons, List.takeWhile_cons_of_neg]
    · exact List.mem_cons_self
    · simp [hfirst'.withoutGutter_tag]

/-! ### The lines are put together again -/

theorem joinLines_cons (hne : text ≠ []) :
    joinLines (line :: text) = line ++ '\n' :: joinLines text := by
  obtain ⟨next, text, rfl⟩ := List.exists_cons_of_ne_nil hne
  rw [joinLines, List.intercalate_cons_cons, List.append_assoc, List.singleton_append, joinLines]

theorem joinLines_concat (hne : text ≠ []) :
    joinLines (text ++ [line]) = joinLines text ++ '\n' :: line := by
  induction text with
  | nil => exact absurd rfl hne
  | cons first text ih =>
    by_cases htext : text = []
    · subst htext
      simp [joinLines]
    · rw [List.cons_append, joinLines_cons (by simp), ih htext, joinLines_cons htext,
        List.append_assoc, List.cons_append]

theorem joinLines_singleton : joinLines [line] = line := List.intercalate_singleton

theorem head?_joinLines {first : List Char} (hne : first ≠ []) :
    (joinLines (first :: text)).head? = first.head? := by
  by_cases htext : text = []
  · rw [htext, joinLines_singleton]
  · rw [joinLines_cons htext, List.head?_append_of_ne_nil _ hne]

theorem getLast?_joinLines {last : List Char} (h : text.getLast? = some last) (hne : last ≠ []) :
    (joinLines text).getLast? = last.getLast? := by
  induction text with
  | nil => cases h
  | cons first text ih =>
    by_cases htext : text = []
    · subst htext
      have heq : first = last := Option.some.inj h
      rw [joinLines_singleton, heq]
    · have hlast : text.getLast? = some last := by
        rwa [List.getLast?_cons_of_ne_nil htext] at h
      have hjoined : joinLines text ≠ [] := by
        intro heq
        rw [heq] at ih
        exact hne (List.getLast?_eq_none_iff.mp (ih hlast).symm)
      rw [joinLines_cons htext, List.getLast?_append_cons, List.getLast?_cons_of_ne_nil hjoined,
        ih hlast]

/-- A text has no white space around it when it is put together. -/
theorem IsText.isTrimmed (h : IsText text) : joinLines text ≠ [] ∧ IsTrimmed (joinLines text) := by
  obtain ⟨first, hfirst⟩ := Option.ne_none_iff_exists'.mp (mt List.head?_eq_none_iff.mp h.nonempty)
  obtain ⟨last, hlast⟩ := Option.ne_none_iff_exists'.mp (mt List.getLast?_eq_none_iff.mp h.nonempty)
  have hfirst' : first ≠ [] := fun heq => h.first (heq ▸ hfirst)
  have hlast' : last ≠ [] := fun heq => h.last (heq ▸ hlast)
  have hhead : (joinLines text).head? = first.head? := by
    obtain ⟨more, rfl⟩ := List.head?_eq_some_iff.mp hfirst
    exact head?_joinLines hfirst'
  refine ⟨fun heq => ?_, ?_, ?_⟩
  · rw [heq] at hhead
    exact hfirst' (List.head?_eq_none_iff.mp hhead.symm)
  · rw [hhead]
    exact (h.line first (List.mem_of_mem_head? hfirst)).trimmed.front
  · rw [getLast?_joinLines hlast hlast']
    exact (h.line last (List.mem_of_getLast? hlast)).trimmed.back

theorem textLines_docBody {written : List (List Char)} (htext : IsText text)
    (hwritten : List.Forall₂ IsLineOf text written) (htags : AreTags tags)
    (hmargin : IsMargin margin) :
    ∃ below ∈ ([[], [[]]] : List (List (List Char))),
      Doc.textLines (docBody written tags margin) = [] :: (text ++ below) := by
  refine ⟨_, textLines_below htags hmargin, ?_⟩
  have hkept : ∀ line ∈ [] :: text, (!Doc.startsWithAt line) = true := by
    rintro line (_ | ⟨_, hmem⟩)
    · rfl
    · simpa [Doc.startsWithAt] using (htext.line line hmem).no_tag
  have hunbroken : ∀ line ∈ written, ∀ c ∈ line, isLineBreak c = false :=
    forall_written htext.line hwritten fun hline h => h.unbroken hline.unbroken
  rw [docBody, Doc.textLines, lines_lineFeed, closedLines, List.flatMap_append, List.append_assoc,
    ← closedLines, ← closedLines, lines_closedLines hunbroken, List.map_cons, List.map_append,
    map_withoutGutter htext.line hwritten]
  exact List.takeWhile_append_of_pos hkept

/-- **The text of a comment is the one that was written.** -/
theorem clean_docBody {written : List (List Char)} (htext : IsText text)
    (hwritten : List.Forall₂ IsLineOf text written) (htags : AreTags tags)
    (hmargin : IsMargin margin) :
    Doc.clean (docBody written tags margin) = some (String.ofList (joinLines text)) := by
  obtain ⟨below, hbelow, hlines⟩ := textLines_docBody htext hwritten htags hmargin
  obtain ⟨hne, htrimmed⟩ := htext.isTrimmed
  have hblank : ∀ c ∈ ['\n'], isBlank c = true := List.forall_mem_singleton.mpr (by decide)
  have hjoined : ∃ b, (∀ c ∈ b, isBlank c = true) ∧
      joinLines ([] :: (text ++ below)) = ['\n'] ++ (joinLines text ++ b) := by
    rw [joinLines_cons (List.append_ne_nil_of_left_ne_nil htext.nonempty below)]
    simp only [List.mem_cons, List.not_mem_nil, or_false] at hbelow
    rcases hbelow with rfl | rfl
    · exact ⟨[], nofun, by simp⟩
    · exact ⟨['\n'], hblank, by rw [joinLines_concat htext.nonempty]; rfl⟩
  obtain ⟨b, hb, hjoined⟩ := hjoined
  have htrim := htrimmed.trim_between hblank hb
  rw [Doc.clean, hlines, hjoined, htrim]
  split
  · next heq => exact absurd heq hne
  · rfl

/-! ### The comment ends where it was closed -/

theorem close_of_margin_append (h : IsMargin margin) (hclose : ['*', '/'] <:+: margin ++ l) :
    ['*', '/'] <:+: l := by
  induction margin with
  | nil => exact hclose
  | cons c margin ih =>
    obtain ⟨hc, hmargin⟩ := List.forall_mem_cons.mp h
    rcases List.infix_cons_iff.mp hclose with hprefix | hinfix
    · obtain rfl : '*' = c := (List.cons_prefix_cons.mp hprefix).1
      exact absurd hc (by decide)
    · exact ih hmargin hinfix

theorem close_of_append_lineFeed (h : ['*', '/'] <:+: l ++ '\n' :: rest) :
    ['*', '/'] <:+: l ∨ ['*', '/'] <:+: rest := by
  induction l with
  | nil => exact .inr (by simpa [List.infix_cons_iff] using h)
  | cons c l ih =>
    rcases List.infix_cons_iff.mp h with hprefix | hinfix
    · obtain ⟨rfl, hslash⟩ := List.cons_prefix_cons.mp hprefix
      cases l with
      | nil => exact absurd (List.cons_prefix_cons.mp hslash).1 (by decide)
      | cons d l =>
        obtain rfl : '/' = d := (List.cons_prefix_cons.mp hslash).1
        exact .inl ⟨[], l, rfl⟩
    · exact (ih hinfix).imp_left fun hl => hl.trans (List.suffix_cons c l).isInfix

theorem IsLineOf.unclosed (h : IsLineOf line written) (hline : ¬['*', '/'] <:+: line) :
    ¬['*', '/'] <:+: written := by
  intro hclose
  cases h with
  | plain hmargin => exact hline (close_of_margin_append hmargin hclose)
  | gutter hmargin =>
    have hclose := close_of_margin_append hmargin hclose
    exact hline (by simpa [List.infix_cons_iff] using hclose)
  | bare hmargin => exact absurd (close_of_margin_append hmargin hclose) (by decide)

theorem closedLines_unclosed {parts : List (List Char)}
    (h : ∀ line ∈ parts, ¬['*', '/'] <:+: line) (hrest : ¬['*', '/'] <:+: rest) :
    ¬['*', '/'] <:+: closedLines parts ++ rest := by
  induction parts with
  | nil => exact hrest
  | cons line parts ih =>
    obtain ⟨hline, hparts⟩ := List.forall_mem_cons.mp h
    rw [closedLines, List.flatMap_cons, List.append_assoc, List.append_assoc,
      List.singleton_append, ← closedLines]
    exact fun hclose => (close_of_append_lineFeed hclose).elim hline (ih hparts)

theorem docBody_unclosed {written : List (List Char)} (htext : IsText text)
    (hwritten : List.Forall₂ IsLineOf text written) (htags : AreTags tags)
    (hmargin : IsMargin margin) : ¬['*', '/'] <:+: '*' :: docBody written tags margin := by
  have hwritten' : ∀ line ∈ written, ¬['*', '/'] <:+: line :=
    forall_written htext.line hwritten fun hline h => h.unclosed hline.unclosed
  have hlines : ∀ line ∈ written ++ tags, ¬['*', '/'] <:+: line :=
    List.forall_mem_append.mpr ⟨hwritten', htags.unclosed⟩
  have hlast : ¬['*', '/'] <:+: margin := fun hclose => by
    rw [← List.append_nil margin] at hclose
    exact absurd (close_of_margin_append hmargin hclose) (by decide)
  have hbody := closedLines_unclosed hlines hlast
  simpa [docBody, List.infix_cons_iff] using hbody

/-- **A comment is one piece of a gap**, whatever stands behind it, and it says what was written. -/
theorem IsDocComment.exists_piece {comment : List Char} (h : IsDocComment text comment)
    (htext : IsText text) : ∃ piece : GapPiece, piece.text = comment ∧
      (∀ rest, piece.IsWhole rest) ∧
      ∀ doc, piece.docBehind doc = some (String.ofList (joinLines text)) := by
  obtain ⟨hwritten, htags, hmargin⟩ := h
  exact ⟨.block ('*' :: docBody _ _ _), rfl, fun _ => docBody_unclosed htext hwritten htags hmargin,
    fun _ => clean_docBody htext hwritten htags hmargin⟩

/-! ### The token behind the comment -/

/-- Plain comments and blanks leave the documentation that waits. -/
theorem docBehindGap_of_plain {gap : List GapPiece} {doc : Option String}
    (h : ∀ piece ∈ gap, piece.doc? = none) : docBehindGap doc gap = doc := by
  induction gap with
  | nil => rfl
  | cons piece gap ih =>
    obtain ⟨hpiece, hgap⟩ := List.forall_mem_cons.mp h
    have hbehind : piece.docBehind doc = doc := by rw [GapPiece.docBehind, hpiece]
    rw [docBehindGap, List.foldl_cons, hbehind]
    exact ih hgap

/-- **Documentation survives its comment.** The token behind a comment carries the text that was
written into the comment, whatever stands before it, and plain comments and blanks in between do not
matter. Only the end of the file carries nothing. -/
theorem scan_documented {segments : List Segment} {last between : List GapPiece}
    {comment before behind : List Char} (htext : IsText text) (hcomment : IsDocComment text comment)
    (hfront : IsFront (comment ++ (gapText between ++ behind)) last segments)
    (hbetween : IsGap behind between) (hplain : ∀ piece ∈ between, piece.doc? = none)
    (hbefore : before = cutText last segments ++ (comment ++ gapText between)) :
    (∀ l kind content rest, behind = l ++ rest → IsLongest l kind content rest →
      scan (String.ofList (before ++ behind)) =
        (scanFrom (placeBehind (before ++ l)) none rest).map fun tokens =>
          segmentTokens [] segments ++ ⟨kind, String.ofList content, placeBehind before,
            some (String.ofList (joinLines text))⟩ :: tokens) ∧
    (behind = [] → scan (String.ofList (before ++ behind)) =
      .ok (segmentTokens [] segments ++ [Token.endAt (placeBehind before)])) := by
  subst hbefore
  obtain ⟨piece, rfl, hpiece, hdoc⟩ := hcomment.exists_piece htext
  have hscan : scan (String.ofList
      (cutText last segments ++ (piece.text ++ gapText between) ++ behind)) =
      (scanFrom (placeBehind (cutText last segments ++ (piece.text ++ gapText between)))
        (some (String.ofList (joinLines text))) behind).map (segmentTokens [] segments ++ ·) := by
    rw [scan, String.toList_ofList, List.append_assoc, List.append_assoc]
    rw [show Position.start = placeBehind [] from rfl, scanFrom_front [] hfront,
      scanFrom_piece (hpiece _), scanFrom_gap hbetween, docBehindGap_of_plain hplain, hdoc,
      after_placeBehind, after_placeBehind, List.nil_append, List.append_assoc]
  rw [hscan]
  constructor
  · rintro l kind content rest rfl hlongest
    rw [scanFrom_lexeme hlongest, after_placeBehind]
    cases scanFrom _ none rest <;> rfl
  · rintro rfl
    rw [scanFrom]
    rfl

/-- Two lines with an empty one between them. -/
def sampleText : List (List Char) := ["One".toList, [], "two".toList]

/-- The lines behind different margins and gutters, with an annotation of two lines below. -/
def sampleComment : String := "/**\n * One\n\t*\n  two\n * @since 3\n more\n\t*/"

theorem isText_sampleText : IsText sampleText := by decide +kernel

theorem isDocComment_sampleComment : IsDocComment sampleText sampleComment.toList := by
  have hspace : IsMargin [' '] := by simp [IsMargin]
  have hspaces : IsMargin [' ', ' '] := by simp [IsMargin]
  have htab : IsMargin ['\t'] := by simp [IsMargin]
  have hwritten : List.Forall₂ IsLineOf sampleText
      [[' '] ++ '*' :: ' ' :: "One".toList, ['\t'] ++ ['*'], [' ', ' '] ++ "two".toList] :=
    .cons (.gutter hspace) (.cons (.bare htab) (.cons (.plain hspaces) .nil))
  have htags : AreTags [[' '] ++ '*' :: ' ' :: '@' :: "since 3".toList, " more".toList] := by
    refine ⟨by decide +kernel, fun line hline => ⟨"since 3".toList, ?_⟩⟩
    rw [← Option.some.inj hline]
    exact .gutter hspace
  have hcomment := IsDocComment.intro hwritten htags htab
  have htext : sampleComment.toList = '/' :: '*' :: '*' :: docBody
      [[' '] ++ '*' :: ' ' :: "One".toList, ['\t'] ++ ['*'], [' ', ' '] ++ "two".toList]
      [[' '] ++ '*' :: ' ' :: '@' :: "since 3".toList, " more".toList] ['\t'] ++ ['*', '/'] := by
    decide +kernel
  rwa [htext]

/-- The word before the comment. -/
def sampleFront : List Segment :=
  [⟨[], "export".toList, .keyword .exportWord, "export".toList⟩]

/-- A plain comment to the end of its line. -/
def sampleBetween : List GapPiece := [.line " plain".toList, .blank '\n']

theorem scan_documented_sampleComment :
    IsText sampleText ∧ IsDocComment sampleText sampleComment.toList ∧
      scan ("export " ++ sampleComment ++ "// plain\ninterface A") =
        .ok [⟨.keyword .exportWord, "export", ⟨1, 1⟩, none⟩,
          ⟨.keyword .interfaceWord, "interface", ⟨8, 1⟩, some "One\n\ntwo"⟩,
          ⟨.identifier, "A", ⟨8, 11⟩, none⟩, Token.endAt ⟨8, 12⟩] := by
  refine ⟨isText_sampleText, isDocComment_sampleComment, ?_⟩
  have hfront : IsFront (sampleComment.toList ++ (gapText sampleBetween ++ "interface A".toList))
      [.blank ' '] sampleFront :=
    ⟨trivial, isLongest_of_readLexeme 'e' "xport".toList (by decide +kernel), .head _, trivial⟩
  have hbetween : IsGap "interface A".toList sampleBetween :=
    ⟨⟨by decide +kernel, .inr (by decide +kernel)⟩, by simp [GapPiece.IsWhole], trivial⟩
  have hlexeme : IsLongest "interface".toList (.keyword .interfaceWord) "interface".toList
      " A".toList :=
    isLongest_of_readLexeme 'i' "nterface".toList (by decide +kernel)
  have hscan := (scan_documented isText_sampleText isDocComment_sampleComment hfront hbetween
    (by decide +kernel) rfl).1 _ _ _ _ (by decide +kernel) hlexeme
  have hsource : "export " ++ sampleComment ++ "// plain\ninterface A" = String.ofList
      (cutText [.blank ' '] sampleFront ++ (sampleComment.toList ++ gapText sampleBetween) ++
        "interface A".toList) := by
    decide +kernel
  rw [hsource, hscan]
  cbv

/-- **The end of the file is not documented**, not even by a comment with a text before it. -/
theorem end_not_documented : IsText ["x".toList] ∧
    IsDocComment ["x".toList] "/**\n * x\n */".toList ∧
    ¬∃ token tokens, scan "/**\n * x\n */" = .ok (token :: tokens) ∧ token.doc = some "x" := by
  have hspace : IsMargin [' '] := by simp [IsMargin]
  have hwritten : List.Forall₂ IsLineOf ["x".toList] [[' '] ++ '*' :: ' ' :: "x".toList] :=
    .cons (.gutter hspace) .nil
  have htags : AreTags [] := ⟨nofun, nofun⟩
  have hcomment := IsDocComment.intro hwritten htags hspace
  have hsource : "/**\n * x\n */".toList = '/' :: '*' :: '*' ::
      docBody [[' '] ++ '*' :: ' ' :: "x".toList] [] [' '] ++ ['*', '/'] := by
    decide +kernel
  refine ⟨by decide +kernel, by rwa [hsource], ?_⟩
  rintro ⟨token, tokens, hscan, hdoc⟩
  have hend : scan "/**\n * x\n */" = .ok [Token.endAt ⟨3, 4⟩] := by cbv
  rw [hend] at hscan
  cases hscan
  cases hdoc

end Lexical

end DeclaredSchema
