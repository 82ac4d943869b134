import DeclaredSchema.Proofs.Declaration.Choices
import DeclaredSchema.Proofs.Declaration.Rendering

/-!
# Types are written by the grammar

The words of a type expression are a phrase of the settled grammar, and the phrase means the
expression, whatever the style is. So nothing is written that could be read in another way: the
parentheses around unions and function types are where they have to be, a member ends where the next
one starts even if no mark stands between them, and a keyword may be the name of a member.

What is said of words holds of all tokens that show them. These have places that the expression does
not know, so meanings are compared without places.

## Main definitions

* `Writes` — words are a phrase of a nonterminal with the given meaning
* `Denotes` — a phrase is one of an expression, alone and as a part of others

## Main results

* `exists_nameParts`, `number_of_shows` — names and integers keep their values
* `Denotes.member` — a function type is that of a property or of a method
* `isDenoted` — type expressions are written as their phrases
-/

namespace DeclaredSchema

open OfTokens Lexical Rendering

namespace Grammar

variable {ts us rest : List Token} {ws ws' : List Word} {w : Word} {e : TypeExpr}
  {es : List TypeExpr}

/-! ### Tokens of words -/

/-- The token of a mark in front of other words. -/
theorem exists_mark {symbol : Symbol} (h : Shows (.mark symbol :: ws) ts rest) :
    ∃ t us, ts = t :: us ∧ t.kind = .symbol symbol ∧ Shows ws us rest := by
  obtain ⟨t, us, rfl, hkind, -, -, h⟩ := h.exists_cons
  exact ⟨t, us, rfl, hkind, h⟩

theorem exists_keyword {k : Keyword} (h : Shows (Rendering.keyword k :: ws) ts rest) :
    ∃ t us, ts = t :: us ∧ t.kind = .keyword k ∧ t.doc = none ∧ Shows ws us rest := by
  obtain ⟨t, us, rfl, hkind, -, hdoc, h⟩ := h.exists_cons
  exact ⟨t, us, rfl, hkind.trans (wordKind_text k), hdoc, h⟩

theorem exists_enclosed {opening closing : Symbol}
    (h : Shows (enclosed opening closing ws) ts rest) :
    ∃ first us last, ts = first :: us ∧ first.kind = .symbol opening ∧
      last.kind = .symbol closing ∧ Shows ws us (last :: rest) := by
  obtain ⟨first, us, rfl, hfirst, h⟩ := exists_mark h
  obtain ⟨vs, hws, h⟩ := shows_append.mp h
  obtain ⟨last, vs, rfl, hlast, h⟩ := exists_mark h
  cases h
  exact ⟨first, us, last, rfl, hfirst, hlast, hws⟩

theorem optionally_of_shows {found : Bool} (h : Shows (optionally w found) ts rest) :
    Optionally w.kind ts found rest := by
  cases found with
  | false =>
    cases h
    exact .absent
  | true =>
    obtain ⟨t, us, rfl, hkind, -, -, h⟩ := h.exists_cons
    cases h
    exact .present hkind

theorem isName_wordKind (word : List Char) : (wordKind word).isName = true := by
  unfold wordKind
  split <;> rfl

theorem wordKind_of_isIdentifier {name : String} (h : IsIdentifier name) :
    wordKind name.toList = .identifier := by
  rw [wordKind, String.ofList_toList, h.2]

/-! ### Names and literals -/

/-- The text of the further parts of a qualified name. -/
def behindPoints : List String → String
  | [] => ""
  | part :: more => "." ++ part ++ behindPoints more

theorem ofList_intercalate (cs : List Char) (parts : List (List Char)) :
    String.ofList (['.'].intercalate (cs :: parts)) =
      String.ofList cs ++ behindPoints (parts.map String.ofList) := by
  induction parts generalizing cs with
  | nil => simp [behindPoints, List.intercalate]
  | cons cs' parts ih =>
    rw [List.intercalate_cons_cons, String.ofList_append, String.ofList_append, ih, List.map_cons,
      behindPoints, String.append_assoc, String.append_assoc]

/-- **A name is made of its parts.** -/
theorem exists_nameParts (name : String) : ∃ more, nameParts name = nameHead name :: more ∧
    nameHead name ++ behindPoints more = name := by
  obtain ⟨cs, parts, hparts⟩ := List.exists_cons_of_ne_nil (List.splitOn_ne_nil '.' name.toList)
  have hname : nameParts name = String.ofList cs :: parts.map String.ofList := by
    rw [nameParts, hparts, List.map_cons]
  have hhead : nameHead name = String.ofList cs := by rw [nameHead, hname, List.headD_cons]
  refine ⟨parts.map String.ofList, by rw [hname, hhead], ?_⟩
  rw [hhead, ← ofList_intercalate, ← hparts, List.intercalate_splitOn, String.ofList_toList]

theorem qualifiers_of_shows {parts : List String}
    (h : Shows (parts.flatMap fun part => [.mark .dot, .name part]) ts rest) :
    Qualifiers ts (behindPoints parts) rest := by
  induction parts generalizing ts with
  | nil =>
    cases h
    exact .nil
  | cons part parts ih =>
    obtain ⟨dot, us, rfl, hdot, h⟩ := exists_mark h
    obtain ⟨name, us, rfl, hname, rfl, -, h⟩ := h.exists_cons
    exact .cons hdot (hname ▸ isName_wordKind _) (ih h)

theorem qualifiedName_of_shows {name : String} (hname : IsQualified name)
    (h : Shows (nameWords name) ts rest) : ∃ t us, ts = t :: us ∧ t.text = nameHead name ∧
      t.kind = .identifier ∧ QualifiedName ts name rest := by
  obtain ⟨more, hparts, htext⟩ := exists_nameParts name
  rw [nameWords, hparts, List.map_cons, joined, List.singleton_append, List.flatMap_map] at h
  obtain ⟨t, us, rfl, hkind, hhead, -, h⟩ := h.exists_cons
  have hkind : t.kind = .identifier := hkind.trans (wordKind_of_isIdentifier hname.1)
  have hhead : t.text = nameHead name := hhead
  have hqualified : QualifiedName (t :: us) (t.text ++ behindPoints more) rest :=
    .mk hkind (qualifiers_of_shows h)
  rw [hhead, htext] at hqualified
  exact ⟨t, us, rfl, hhead, hkind, hqualified⟩

theorem isWhole_nameWords {name : String} (h : IsQualified name) :
    ∀ w ∈ nameWords name, w.IsWhole := by
  obtain ⟨more, hparts, -⟩ := exists_nameParts name
  have hall := h.2
  rw [hparts, List.forall_mem_cons] at hall
  rw [nameWords, hparts, List.map_cons, joined, List.singleton_append, List.flatMap_map,
    List.forall_mem_cons]
  refine ⟨hall.1, fun w hw => ?_⟩
  obtain ⟨part, hpart, hw⟩ := List.mem_flatMap.mp hw
  obtain rfl | hw := List.mem_cons.mp hw
  · trivial
  · obtain rfl := List.mem_singleton.mp hw
    exact hall.2 part hpart

theorem numberValue_of_digits {t : Token} {n : Nat} (hkind : t.kind = .integer)
    (htext : t.text = String.ofList (Nat.toDigits 10 n)) (hn : n < 10 ^ digitLimit) :
    numberValue t = .ok (.int n) := by
  rw [numberValue, if_pos hkind, htext, readInteger_toDigits, if_pos hn]

/-- A readable integer is read, with its sign. -/
theorem number_of_shows {i : Int} (hi : (Literal.int i).IsReadable)
    (h : Shows (literalWords (.int i)) ts rest) : Number ts (.int i) rest := by
  obtain ⟨us, hminus, h⟩ := shows_append.mp h
  obtain ⟨t, us, rfl, hkind, htext, -, h⟩ := h.exists_cons
  cases h
  have hnumber := Number.mk (optionally_of_shows hminus) (.inl hkind)
    (numberValue_of_digits hkind htext hi)
  have hvalue : (if decide (i < 0) = true then negated (.int i.natAbs) else .int i.natAbs) =
      Literal.int i := by
    by_cases hneg : i < 0
    · rw [if_pos (decide_eq_true hneg), negated]
      exact congrArg Literal.int (by omega)
    · rw [if_neg (by simpa using hneg)]
      exact congrArg Literal.int (by omega)
  rwa [hvalue] at hnumber

theorem isWhole_optionally {found : Bool} (h : w.IsWhole) :
    ∀ w' ∈ optionally w found, w'.IsWhole := by
  cases found with
  | false => exact List.forall_mem_nil _
  | true => exact List.forall_mem_singleton.mpr h

theorem isWhole_literal (v : Literal) : ∀ w ∈ literalWords v, w.IsWhole := by
  cases v with
  | str text => exact List.forall_mem_singleton.mpr trivial
  | int i =>
    exact List.forall_mem_append.mpr
      ⟨isWhole_optionally trivial, List.forall_mem_singleton.mpr trivial⟩
  | float x => exact List.forall_mem_nil _
  | bool b => exact List.forall_mem_singleton.mpr (isWord_keyword _)

/-! ### What stands around types -/

theorem separator_of_shows {ending : Ending} (h : Shows ending.words ts rest) :
    Separator ts rest := by
  cases ending with
  | semicolon =>
    obtain ⟨t, us, rfl, ht, h⟩ := exists_mark h
    cases h
    exact .mark (.inl ht)
  | comma =>
    obtain ⟨t, us, rfl, ht, h⟩ := exists_mark h
    cases h
    exact .mark (.inr ht)
  | blank =>
    cases h
    exact .none

section

variable {isQuoted isReadonly isOptional : Bool} {name : String}

/-- A member can have any name. -/
theorem memberWord_cases (isQuoted : Bool) (name : String) :
    memberWord isQuoted name = .quoted name ∨
      memberWord isQuoted name = .name name ∧ isWord name = true := by
  unfold memberWord
  split
  · exact .inl rfl
  · next h =>
    obtain ⟨-, hname⟩ : isQuoted = false ∧ isWord name = true := by simpa using h
    exact .inr ⟨rfl, hname⟩

theorem isWhole_memberWord : (memberWord isQuoted name).IsWhole := by
  obtain h | ⟨h, hname⟩ := memberWord_cases isQuoted name
  · rw [h]
    trivial
  · rw [h]
    exact hname

theorem exists_memberWord (h : Shows (memberWord isQuoted name :: ws) ts rest) :
    ∃ t us, ts = t :: us ∧ (t.kind.isName = true ∨ t.kind = .string) ∧ t.text = name ∧
      t.doc = none ∧ Shows ws us rest := by
  obtain ⟨t, us, rfl, hkind, htext, hdoc, h⟩ := h.exists_cons
  obtain hword | ⟨hword, -⟩ := memberWord_cases isQuoted name
  · rw [hword] at hkind htext
    exact ⟨t, us, rfl, .inr hkind, htext, hdoc, h⟩
  · rw [hword] at hkind htext
    exact ⟨t, us, rfl, .inl (hkind ▸ isName_wordKind _), htext, hdoc, h⟩

theorem isWhole_memberHead : ∀ w ∈ memberHead isQuoted isReadonly name isOptional, w.IsWhole := by
  rw [memberHead, List.forall_mem_append, List.forall_mem_cons]
  exact ⟨isWhole_optionally (isWord_keyword _), isWhole_memberWord, isWhole_optionally trivial⟩

theorem exists_memberHead (h : Shows (memberHead isQuoted isReadonly name isOptional) ts rest) :
    ∃ first us t vs, ts = first :: us ∧ first.doc = none ∧
      MemberName (first :: us) (isReadonly, t) vs ∧ t.text = name ∧
      Optionally (.symbol .question) vs isOptional rest := by
  obtain ⟨us, hreadonly, h⟩ := shows_append.mp h
  obtain ⟨t, vs, rfl, hkind, htext, hdoc, h⟩ := exists_memberWord h
  have hoptional := optionally_of_shows h
  cases isReadonly with
  | false =>
    cases hreadonly
    exact ⟨t, vs, t, vs, rfl, hdoc, .plain (hkind.imp_right .inl), htext, hoptional⟩
  | true =>
    obtain ⟨word, us, rfl, hword, hdoc, h⟩ := exists_keyword hreadonly
    cases h
    exact ⟨word, _, t, vs, rfl, hdoc, .modified hword hkind, htext, hoptional⟩

end

/-! ### Phrases in words -/

/-- A meaning without places. -/
def Nonterminal.unplaced : (p : Nonterminal) → p.Meaning → p.Meaning
  | .type, e | .suffixed, e | .primary, e | .arrow, e => TypeExpr.unplaced e
  | .alternatives, es | .arguments, es | .furtherArguments, es => unplacedTypes es
  | .body, ms | .members, ms => unplacedProperties ms
  | .member, m => Property.unplaced m
  | .parameters, ps | .entries, ps => unplacedParameters ps

/-- The words are a phrase of `p`, wherever they stand, and mean `m`, places apart. -/
structure Writes (p : Nonterminal) (ws : List Word) (m : p.Meaning) : Prop where
  whole : ∀ w ∈ ws, w.IsWhole
  derives : ∀ {ts rest}, Shows ws ts rest →
    ∃ m', Derives true p ts m' rest ∧ p.unplaced m' = p.unplaced m

variable {p : Property TypeExpr} {ps : List (Parameter TypeExpr)} {ms : List (Property TypeExpr)}

theorem forall_mem_enclosed {opening closing : Symbol} (h : ∀ w ∈ ws, w.IsWhole) :
    ∀ w ∈ enclosed opening closing ws, w.IsWhole := by
  rw [enclosed, List.forall_mem_append, List.forall_mem_cons]
  exact ⟨⟨trivial, h⟩, List.forall_mem_singleton.mpr trivial⟩

namespace Writes

theorem nil {p : Nonterminal} {m : p.Meaning} (h : ∀ ts, Derives true p ts m ts) :
    Writes p [] m where
  whole := List.forall_mem_nil _
  derives hs := by
    cases hs
    exact ⟨m, h _, rfl⟩

/-! #### Types -/

theorem suffixed (h : Writes .primary ws e) : Writes .suffixed ws e where
  whole := h.whole
  derives hs := by
    obtain ⟨e', h', he⟩ := h.derives hs
    have hsuffixed : Derives true .suffixed _ (arrays 0 e') _ := .suffixed h' .nil
    exact ⟨e', hsuffixed, he⟩

theorem type (h : Writes .suffixed ws e) : Writes .type ws e where
  whole := h.whole
  derives hs := by
    obtain ⟨e', h', he⟩ := h.derives hs
    have htype : Derives true .type _ (unionOf e' []) _ := .type .absent h' .noAlternative
    exact ⟨e', htype, he⟩

theorem parens (h : Writes .type ws e) :
    Writes .suffixed (enclosed .parenOpen .parenClose ws) e := by
  refine suffixed ⟨forall_mem_enclosed h.whole, fun hs => ?_⟩
  obtain ⟨opening, us, closing, rfl, hopen, hclose, hs⟩ := exists_enclosed hs
  obtain ⟨e', h', he⟩ := h.derives hs
  exact ⟨e', .parens hopen h' hclose, he⟩

theorem arrays_succ (k : Nat) (e : TypeExpr) : arrays (k + 1) e = .array (arrays k e) := by
  induction k generalizing e with
  | zero => rfl
  | succ k ih => exact ih (.array e)

theorem array (h : Writes .suffixed ws e) :
    Writes .suffixed (ws ++ [.mark .bracketOpen, .mark .bracketClose]) (.array e) where
  whole := List.forall_mem_append.mpr ⟨h.whole, by simp [Word.IsWhole]⟩
  derives hs := by
    obtain ⟨us, hws, hs⟩ := shows_append.mp hs
    obtain ⟨opening, vs, rfl, hopen, hs⟩ := exists_mark hs
    obtain ⟨closing, vs, rfl, hclose, hs⟩ := exists_mark hs
    cases hs
    obtain ⟨e', h', he⟩ := h.derives hws
    cases h' with
    | @suffixed _ _ _ e₀ k hprimary hsuffixes =>
      -- the element may be an array itself: the new suffix comes behind those of the element
      refine ⟨arrays (k + 1) e₀,
        .suffixed hprimary (hsuffixes.append (.cons hopen hclose .nil)), ?_⟩
      rw [arrays_succ]
      exact congrArg TypeExpr.array he

theorem arrow (hps : Writes .parameters ws ps) (h : Writes .type ws' e) :
    Writes .type (ws ++ .mark .arrow :: ws') (.function ps e) where
  whole := List.forall_mem_append.mpr ⟨hps.whole, List.forall_mem_cons.mpr ⟨trivial, h.whole⟩⟩
  derives hs := by
    obtain ⟨us, hws, hs⟩ := shows_append.mp hs
    obtain ⟨t, vs, rfl, ht, hs⟩ := exists_mark hs
    obtain ⟨ps', hps', heq⟩ := hps.derives hws
    obtain ⟨e', h', he⟩ := h.derives hs
    exact ⟨.function ps' e', .onlyArrow rfl .absent (.arrow hps' ht h'),
      congrArg₂ TypeExpr.function heq he⟩

theorem alternative (h : Writes .suffixed ws e) (h' : Writes .alternatives ws' es) :
    Writes .alternatives (.mark .pipe :: ws ++ ws') (e :: es) where
  whole := List.forall_mem_append.mpr ⟨List.forall_mem_cons.mpr ⟨trivial, h.whole⟩, h'.whole⟩
  derives hs := by
    obtain ⟨us, hws, hws'⟩ := shows_append.mp hs
    obtain ⟨t, vs, rfl, ht, hws⟩ := exists_mark hws
    obtain ⟨e', hfirst, he⟩ := h.derives hws
    obtain ⟨es', hmore, hes⟩ := h'.derives hws'
    exact ⟨e' :: es', .alternative ht hfirst hmore, congrArg₂ List.cons he hes⟩

theorem union (h : Writes .suffixed ws e) (h' : Writes .alternatives ws' es) (hes : es ≠ []) :
    Writes .type (ws ++ ws') (.union (e :: es)) where
  whole := List.forall_mem_append.mpr ⟨h.whole, h'.whole⟩
  derives hs := by
    obtain ⟨us, hws, hs⟩ := shows_append.mp hs
    obtain ⟨e', hfirst, he⟩ := h.derives hws
    obtain ⟨es', hmore, heq⟩ := h'.derives hs
    have htype : Derives true .type _ (unionOf e' es') _ := .type .absent hfirst hmore
    have hunion : unionOf e' es' = .union (e' :: es') := by
      cases es' with
      | nil =>
        cases es with
        | nil => exact absurd rfl hes
        | cons => cases heq
      | cons => rfl
    rw [hunion] at htype
    exact ⟨_, htype, congrArg TypeExpr.union (congrArg₂ List.cons he heq)⟩

/-- Type keywords are identifiers, but for two. -/
theorem keyword_cases (word : TypeKeyword) :
    word = .null ∨ word = .undefined ∨ wordKind word.text.toList = .identifier ∧
      TypeKeyword.ofIdentifier? word.text = some word := by
  cases word <;> decide +kernel

theorem keyword (word : TypeKeyword) : Writes .suffixed [.name word.text] (.keyword word) := by
  refine suffixed ⟨?_, fun hs => ?_⟩
  · have hname : isWord word.text = true := by cases word <;> decide +kernel
    exact List.forall_mem_singleton.mpr hname
  · obtain ⟨t, us, rfl, hkind, htext, -, hs⟩ := hs.exists_cons
    cases hs
    obtain rfl | rfl | ⟨hword, hof⟩ := keyword_cases word
    · exact ⟨_, .null (hkind.trans (wordKind_text .nullWord)), rfl⟩
    · exact ⟨_, .undefined (hkind.trans (wordKind_text .undefinedWord)), rfl⟩
    · exact ⟨_, .keyword (hkind.trans hword) (htext ▸ hof), rfl⟩

theorem literal {v : Literal} (hfloat : ∀ x, v ≠ .float x) (hv : v.IsReadable) :
    Writes .suffixed (literalWords v) (.literal v) := by
  refine suffixed ⟨isWhole_literal v, fun hs => ?_⟩
  cases v with
  | str text =>
    obtain ⟨t, us, rfl, hkind, rfl, -, hs⟩ := hs.exists_cons
    cases hs
    exact ⟨_, .string hkind, rfl⟩
  | int i => exact ⟨_, .number (number_of_shows hv hs), rfl⟩
  | float x => exact absurd rfl (hfloat x)
  | bool b =>
    obtain ⟨t, us, rfl, hkind, -, hs⟩ := exists_keyword hs
    cases hs
    cases b with
    | true => exact ⟨_, .truth hkind, rfl⟩
    | false => exact ⟨_, .falsity hkind, rfl⟩

theorem argument (h : Writes .type ws e) (h' : Writes .furtherArguments ws' es) :
    Writes .furtherArguments (.mark .comma :: ws ++ ws') (e :: es) where
  whole := List.forall_mem_append.mpr ⟨List.forall_mem_cons.mpr ⟨trivial, h.whole⟩, h'.whole⟩
  derives hs := by
    obtain ⟨us, hws, hws'⟩ := shows_append.mp hs
    obtain ⟨t, vs, rfl, ht, hws⟩ := exists_mark hws
    obtain ⟨e', hfirst, he⟩ := h.derives hws
    obtain ⟨es', hmore, hes⟩ := h'.derives hws'
    exact ⟨e' :: es', .argument ht hfirst hmore, congrArg₂ List.cons he hes⟩

theorem arguments (h : Writes .type ws e) (h' : Writes .furtherArguments ws' es) :
    Writes .arguments (enclosed .angleOpen .angleClose (ws ++ ws')) (e :: es) where
  whole := forall_mem_enclosed (List.forall_mem_append.mpr ⟨h.whole, h'.whole⟩)
  derives hs := by
    obtain ⟨opening, us, closing, rfl, hopen, hclose, hs⟩ := exists_enclosed hs
    obtain ⟨vs, hws, hws'⟩ := shows_append.mp hs
    obtain ⟨e', hfirst, he⟩ := h.derives hws
    obtain ⟨es', hmore, hes⟩ := h'.derives hws'
    exact ⟨e' :: es', .arguments hopen hfirst hmore hclose, congrArg₂ List.cons he hes⟩

theorem reference {name : String} (position : Position) (hname : IsQualified name)
    (hstart : StartsReference (nameHead name)) (h : Writes .arguments ws es) :
    Writes .suffixed (nameWords name ++ ws) (.reference name es position) := by
  refine suffixed ⟨List.forall_mem_append.mpr ⟨isWhole_nameWords hname, h.whole⟩, fun hs => ?_⟩
  obtain ⟨us, hws, hws'⟩ := shows_append.mp hs
  obtain ⟨t, vs, rfl, htext, -, hqualified⟩ := qualifiedName_of_shows hname hws
  obtain ⟨es', hargs, hes⟩ := h.derives hws'
  obtain ⟨hword, hoperator⟩ := htext ▸ hstart
  exact ⟨.reference name es' t.position, .reference hword hoperator hqualified hargs,
    congrArg (TypeExpr.reference name · .start) hes⟩

/-! #### Members -/

theorem object (position : Position) (h : Writes .members ws ms) :
    Writes .suffixed (enclosed .braceOpen .braceClose ws) (.object ms position) := by
  refine suffixed ⟨forall_mem_enclosed h.whole, fun hs => ?_⟩
  obtain ⟨opening, us, closing, rfl, hopen, hclose, hs⟩ := exists_enclosed hs
  obtain ⟨ms', h', hms⟩ := h.derives hs
  exact ⟨.object ms' opening.position, .object (.body hopen h' hclose),
    congrArg (TypeExpr.object · .start) hms⟩

theorem body (h : Writes .members ws ms) :
    Writes .body (enclosed .braceOpen .braceClose ws) ms where
  whole := forall_mem_enclosed h.whole
  derives hs := by
    obtain ⟨opening, us, closing, rfl, hopen, hclose, hs⟩ := exists_enclosed hs
    obtain ⟨ms', h', hms⟩ := h.derives hs
    exact ⟨ms', .body hopen h' hclose, hms⟩

theorem members (ending : Ending) (h : Writes .member ws p) (h' : Writes .members ws' ms) :
    Writes .members (ws ++ ending.words ++ ws') (p :: ms) where
  whole := by
    refine List.forall_mem_append.mpr ⟨List.forall_mem_append.mpr ⟨h.whole, ?_⟩, h'.whole⟩
    cases ending <;> simp [Ending.words, Word.IsWhole]
  derives hs := by
    obtain ⟨us, hs, hws'⟩ := shows_append.mp hs
    obtain ⟨vs, hws, hending⟩ := shows_append.mp hs
    obtain ⟨p', hfirst, hp⟩ := h.derives hws
    obtain ⟨ms', hmore, hms⟩ := h'.derives hws'
    exact ⟨p' :: ms', .members hfirst (separator_of_shows hending) hmore,
      congrArg₂ List.cons hp hms⟩

section

variable {isQuoted isReadonly isOptional : Bool} {name : String}

theorem property (position : Position) (h : Writes .type ws e) :
    Writes .member (memberHead isQuoted isReadonly name isOptional ++ .mark .colon :: ws)
      ⟨name, e, isOptional, isReadonly, none, position⟩ where
  whole := List.forall_mem_append.mpr
    ⟨isWhole_memberHead, List.forall_mem_cons.mpr ⟨trivial, h.whole⟩⟩
  derives hs := by
    obtain ⟨us, hhead, htype⟩ := shows_append.mp hs
    obtain ⟨first, ts', t, vs, rfl, hdoc, hname, rfl, hoptional⟩ := exists_memberHead hhead
    obtain ⟨colon, us, rfl, hcolon, htype⟩ := exists_mark htype
    obtain ⟨e', h', he⟩ := h.derives htype
    have he : e'.unplaced = e.unplaced := he
    exact ⟨_, .property hname hoptional hcolon h', by
      simp only [Nonterminal.unplaced, Property.unplaced, hdoc, he]⟩

theorem method (position : Position) (hps : Writes .parameters ws ps) (h : Writes .type ws' e) :
    Writes .member (memberHead isQuoted isReadonly name isOptional ++ (ws ++ .mark .colon :: ws'))
      ⟨name, .function ps e, isOptional, isReadonly, none, position⟩ where
  whole := by
    refine List.forall_mem_append.mpr ⟨isWhole_memberHead, ?_⟩
    exact List.forall_mem_append.mpr ⟨hps.whole, List.forall_mem_cons.mpr ⟨trivial, h.whole⟩⟩
  derives hs := by
    obtain ⟨us, hhead, htype⟩ := shows_append.mp hs
    obtain ⟨first, ts', t, vs, rfl, hdoc, hname, rfl, hoptional⟩ := exists_memberHead hhead
    obtain ⟨vs, hws, hws'⟩ := shows_append.mp htype
    obtain ⟨colon, us, rfl, hcolon, hws'⟩ := exists_mark hws'
    obtain ⟨ps', hparameters, heq⟩ := hps.derives hws
    obtain ⟨e', hresult, he⟩ := h.derives hws'
    have heq : unplacedParameters ps' = unplacedParameters ps := heq
    have he : e'.unplaced = e.unplaced := he
    exact ⟨_, .method hname hoptional hparameters hcolon hresult, by
      simp only [Nonterminal.unplaced, Property.unplaced, TypeExpr.unplaced, hdoc, heq, he]⟩

end

/-! #### Parameters -/

theorem parameters (h : Writes .entries ws ps) :
    Writes .parameters (enclosed .parenOpen .parenClose ws) ps where
  whole := forall_mem_enclosed h.whole
  derives hs := by
    obtain ⟨opening, us, closing, rfl, hopen, hclose, hs⟩ := exists_enclosed hs
    obtain ⟨ps', h', hps⟩ := h.derives hs
    exact ⟨ps', .parameters hopen h' hclose, hps⟩

section

variable {name : String} {isOptional : Bool}

theorem isWhole_entry (hname : isWord name = true) (h : ∀ w ∈ ws, w.IsWhole) :
    ∀ w ∈ parameterHead name isOptional ++ .mark .colon :: ws, w.IsWhole := by
  rw [List.forall_mem_append, parameterHead, List.forall_mem_cons, List.forall_mem_cons]
  exact ⟨⟨hname, isWhole_optionally trivial⟩, trivial, h⟩

theorem exists_entry (h : Shows (parameterHead name isOptional ++ .mark .colon :: ws) ts rest) :
    ∃ t us colon vs, ts = t :: us ∧ t.kind.isName = true ∧ t.text = name ∧
      Optionally (.symbol .question) us isOptional (colon :: vs) ∧ colon.kind = .symbol .colon ∧
      Shows ws vs rest := by
  obtain ⟨us, hhead, htype⟩ := shows_append.mp h
  obtain ⟨t, vs, rfl, hkind, htext, -, hoptional⟩ := hhead.exists_cons
  obtain ⟨colon, us, rfl, hcolon, htype⟩ := exists_mark htype
  exact ⟨t, vs, colon, us, rfl, hkind ▸ isName_wordKind _, htext, optionally_of_shows hoptional,
    hcolon, htype⟩

theorem lastEntry (hname : isWord name = true) (h : Writes .type ws e) :
    Writes .entries (parameterHead name isOptional ++ .mark .colon :: ws)
      [⟨name, e, isOptional⟩] where
  whole := isWhole_entry hname h.whole
  derives hs := by
    obtain ⟨t, us, colon, vs, rfl, hkind, rfl, hoptional, hcolon, hs⟩ := exists_entry hs
    obtain ⟨e', h', he⟩ := h.derives hs
    exact ⟨_, .lastEntry hkind hoptional hcolon h',
      congrArg (fun e => [Parameter.mk t.text e isOptional]) he⟩

theorem entry (hname : isWord name = true) (h : Writes .type ws e) (h' : Writes .entries ws' ps) :
    Writes .entries (parameterHead name isOptional ++ .mark .colon :: ws ++ .mark .comma :: ws')
      (⟨name, e, isOptional⟩ :: ps) where
  whole := List.forall_mem_append.mpr
    ⟨isWhole_entry hname h.whole, List.forall_mem_cons.mpr ⟨trivial, h'.whole⟩⟩
  derives hs := by
    obtain ⟨us, hfirst, hmore⟩ := shows_append.mp hs
    obtain ⟨t, vs, colon, xs, rfl, hkind, rfl, hoptional, hcolon, hfirst⟩ := exists_entry hfirst
    obtain ⟨comma, us, rfl, hcomma, hmore⟩ := exists_mark hmore
    obtain ⟨e', htype, he⟩ := h.derives hfirst
    obtain ⟨ps', hentries, hps⟩ := h'.derives hmore
    exact ⟨_, .entries hkind hoptional hcolon htype hcomma hentries,
      congrArg₂ (fun e ps => Parameter.mk t.text e isOptional :: ps) he hps⟩

end

end Writes

/-! ### Types in words -/

/-- A phrase is one of an expression. The words of a union are a type of their own and no part of
another one; a function type is known by its parameters and its result. -/
def Denotes : Phrase → TypeExpr → Prop
  | .closed ws, e => Writes .suffixed ws e
  | .union ws, e => Writes .type ws e
  | .function ws ws', e =>
    ∃ ps result, e = .function ps result ∧ Writes .parameters ws ps ∧ Writes .type ws' result

namespace Denotes

variable {phrase : Phrase}

theorem words (h : Denotes phrase e) : Writes .type phrase.words e := by
  cases phrase with
  | closed ws => exact h.type
  | union ws => exact h
  | function ws ws' =>
    obtain ⟨ps, result, rfl, hps, hresult⟩ := h
    exact hps.arrow hresult

theorem part (h : Denotes phrase e) : Writes .suffixed phrase.part e := by
  cases phrase with
  | closed ws => exact h
  | union ws => exact Writes.parens h
  | function ws ws' => exact h.words.parens

/-- **A member is written** as a property, or as a method if it has a function type. -/
theorem member {isQuoted isReadonly isOptional : Bool} {name : String} (isMethod : Bool)
    (position : Position) (h : Denotes phrase e) :
    Writes .member (memberHead isQuoted isReadonly name isOptional ++ phrase.signature isMethod)
      ⟨name, e, isOptional, isReadonly, none, position⟩ := by
  have hproperty : Writes .member
      (memberHead isQuoted isReadonly name isOptional ++ .mark .colon :: phrase.words)
      ⟨name, e, isOptional, isReadonly, none, position⟩ := h.words.property position
  cases phrase with
  | closed | union => exact hproperty
  | function ws ws' =>
    cases isMethod with
    | false => exact hproperty
    | true =>
      obtain ⟨ps, result, rfl, hps, hresult⟩ := h
      exact hps.method position hresult

end Denotes

section

variable {style : List Nat → MemberStyle} {path : List Nat}

/-- The expression is written as its phrase, wherever it stands. -/
def IsDenoted (style : List Nat → MemberStyle) (e : TypeExpr) : Prop :=
  ∀ path, Denotes (e.phrase style path) e

theorem writes_alternatives (h : ∀ e ∈ es, IsDenoted style e) (i : Nat) :
    Writes .alternatives
      (((phrases style path i es).map Phrase.part).flatMap (.mark .pipe :: ·)) es := by
  induction es generalizing i with
  | nil => exact .nil fun _ => .noAlternative
  | cons e es ih =>
    obtain ⟨he, hes⟩ := List.forall_mem_cons.mp h
    exact (he (i :: path)).part.alternative (ih hes (i + 1))

theorem writes_union (h : ∀ e ∈ es, IsDenoted style e) (hlength : 2 ≤ es.length) :
    Writes .type (joined .pipe ((phrases style path 0 es).map Phrase.part)) (.union es) := by
  cases es with
  | nil => cases hlength
  | cons e es =>
    obtain ⟨he, hes⟩ := List.forall_mem_cons.mp h
    refine (he (0 :: path)).part.union (writes_alternatives hes 1) ?_
    rintro rfl
    exact absurd hlength (by simp)

theorem writes_furtherArguments (h : ∀ e ∈ es, IsDenoted style e) (i : Nat) :
    Writes .furtherArguments
      (((phrases style path i es).map Phrase.words).flatMap (.mark .comma :: ·)) es := by
  induction es generalizing i with
  | nil => exact .nil fun _ => .noArgument
  | cons e es ih =>
    obtain ⟨he, hes⟩ := List.forall_mem_cons.mp h
    exact (he (i :: path)).words.argument (ih hes (i + 1))

theorem writes_arguments (h : ∀ e ∈ es, IsDenoted style e) :
    Writes .arguments (argumentWords (phrases style path 0 es)) es := by
  cases es with
  | nil => exact .nil fun _ => .noArguments
  | cons e es =>
    obtain ⟨he, hes⟩ := List.forall_mem_cons.mp h
    exact (he (0 :: path)).words.arguments (writes_furtherArguments hes 1)

theorem writes_members (hdoc : ∀ p ∈ ms, p.doc = none)
    (h : ∀ e ∈ ms.map Property.type, IsDenoted style e) (i : Nat) :
    Writes .members (memberList style path i ms) ms := by
  induction ms generalizing i with
  | nil => exact .nil fun _ => .noMember
  | cons p ms ih =>
    obtain ⟨hp, hms⟩ := List.forall_mem_cons.mp hdoc
    obtain ⟨he, hes⟩ := List.forall_mem_cons.mp h
    obtain ⟨name, e, isOptional, isReadonly, doc, position⟩ := p
    obtain rfl : doc = none := hp
    exact ((he (i :: path)).member _ position).members _ (ih hms hes (i + 1))

theorem writes_entries (hname : ∀ p ∈ ps, isWord p.name = true)
    (h : ∀ e ∈ ps.map Parameter.type, IsDenoted style e) (i : Nat) :
    Writes .entries (joined .comma (parameterList style path i ps)) ps := by
  induction ps generalizing i with
  | nil => exact .nil fun _ => .noEntry
  | cons p ps ih =>
    obtain ⟨hp, hps⟩ := List.forall_mem_cons.mp hname
    obtain ⟨he, hes⟩ := List.forall_mem_cons.mp h
    have hmore := ih hps hes (i + 1)
    have htype := (he (i :: path)).words
    obtain ⟨name, e, isOptional⟩ := p
    cases ps with
    | nil =>
      rw [parameterList, parameterList, joined_singleton]
      exact htype.lastEntry hp
    | cons p ps => exact htype.entry hp hmore

/-- **A type expression is written as its phrase.** -/
theorem isDenoted (h : e.All TypeExpr.IsWritable) (hreadable : e.All TypeExpr.IsReadable) :
    IsDenoted style e := by
  -- `All` holds of every part, so the induction on it is one on the expression
  induction h with
  | @mk e he hparts ih =>
    obtain ⟨hself, hreadable⟩ := hreadable
    have ih : ∀ c ∈ e.children, IsDenoted style c := fun c hc => ih c hc (hreadable c hc)
    intro path
    cases e with
    | keyword word => exact .keyword word
    | literal value => exact .literal he (hself value rfl)
    | reference name arguments position =>
      exact (writes_arguments ih).reference position he.1 he.2
    | array element => exact (ih element (List.mem_singleton_self _) (0 :: path)).part.array
    | union members => exact writes_union ih he
    | object members position => exact (writes_members he ih 0).object position
    | function parameters result =>
      obtain ⟨hresult, hparameters⟩ := List.forall_mem_cons.mp ih
      exact ⟨parameters, result, rfl, (writes_entries he hparameters 1).parameters,
        (hresult (0 :: path)).words⟩

theorem writes_body {position : Position}
    (h : (TypeExpr.object ms position).All TypeExpr.IsWritable)
    (hreadable : (TypeExpr.object ms position).All TypeExpr.IsReadable) :
    Writes .body (enclosed .braceOpen .braceClose (memberList style path 0 ms)) ms := by
  obtain ⟨hms, hparts⟩ := h
  obtain ⟨-, hreadable⟩ := hreadable
  exact (writes_members hms (fun e he => isDenoted (hparts e he) (hreadable e he)) 0).body

end

end Grammar

end DeclaredSchema
