import DeclaredSchema.Proofs.Declaration.Grammar

/-!
# The choice that the grammar leaves open

The settled grammar makes the choice that the grammar leaves open for function types. Nothing is
lost: each of its derivations is one of the grammar as it is written, and each phrase of the latter
is a phrase of the former, though with another meaning perhaps.

The second is the harder part. A function type in the middle of a type has to move to its end, and
takes along what follows it: the suffixes and alternatives that were outside become part of its
result.

## Main results

* `Derives.free`, `Items.free` — settled derivations are derivations
* `Derives.extend` — a function type takes in what follows it
* `Derives.settle`, `Items.settle` — what is derived can be derived in a settled way
-/

namespace DeclaredSchema

open OfTokens

namespace Grammar

variable {p : Nonterminal} {ts us vs rest : List Token} {m : p.Meaning} {e : TypeExpr}
  {es : List TypeExpr} {j k : Nat}

/-! ### From settled derivations to derivations -/

/-- **Settled derivations** are derivations with the same meaning. -/
theorem Derives.free (h : Derives true p ts m rest) : Derives false p ts m rest := by
  induction h with
  | type hbar _ _ ih ih' => exact .type hbar ih ih'
  | onlyArrow _ hbar _ ih => exact .type hbar (.suffixed (.freeArrow rfl ih) .nil) .noAlternative
  | noAlternative => exact .noAlternative
  | alternative ht _ _ ih ih' => exact .alternative ht ih ih'
  | lastArrow _ ht _ ih =>
    exact .alternative ht (.suffixed (.freeArrow rfl ih) .nil) .noAlternative
  | suffixed _ hsuffixes ih => exact .suffixed ih hsuffixes
  | arrow _ ht _ ih ih' => exact .arrow ih ht ih'
  | freeArrow hfree => cases hfree
  | object _ ih => exact .object ih
  | parens hopen _ hclose ih => exact .parens hopen ih hclose
  | string ht => exact .string ht
  | number h => exact .number h
  | truth ht => exact .truth ht
  | falsity ht => exact .falsity ht
  | null ht => exact .null ht
  | undefined ht => exact .undefined ht
  | keyword ht hword => exact .keyword ht hword
  | reference hword hoperator hname _ ih => exact .reference hword hoperator hname ih
  | noArguments => exact .noArguments
  | arguments hopen _ _ hclose ih ih' => exact .arguments hopen ih ih' hclose
  | noArgument => exact .noArgument
  | argument ht _ _ ih ih' => exact .argument ht ih ih'
  | body hopen _ hclose ih => exact .body hopen ih hclose
  | noMember => exact .noMember
  | members _ hseparator _ ih ih' => exact .members ih hseparator ih'
  | property hname hoptional hcolon _ ih => exact .property hname hoptional hcolon ih
  | method hname hoptional _ hcolon _ ih ih' => exact .method hname hoptional ih hcolon ih'
  | parameters hopen _ hclose ih => exact .parameters hopen ih hclose
  | noEntry => exact .noEntry
  | lastEntry hname hoptional hcolon _ ih => exact .lastEntry hname hoptional hcolon ih
  | entries hname hoptional hcolon _ hcomma _ ih ih' =>
    exact .entries hname hoptional hcolon ih hcomma ih'

theorem Declares.free {doc : Option String} {d : Declaration} (h : Declares true doc ts d rest) :
    Declares false doc ts d rest := by
  cases h with
  | interface hword hname hbases h => exact .interface hword hname hbases h.free
  | typeAlias hword hname hequals h hclosing =>
    exact .typeAlias hword hname hequals h.free hclosing
  | enumeration hconst hword hname hopen h hclose =>
    exact .enumeration hconst hword hname hopen h hclose

theorem Items.free {is : List Import} {ds : List Declaration} (h : Items true ts is ds rest) :
    Items false ts is ds rest := by
  induction h with
  | nil => exact .nil
  | blank ht _ ih => exact .blank ht ih
  | importing h _ ih => exact .importing h ih
  | declaring hmodifiers h _ ih => exact .declaring hmodifiers h.free ih

/-! ### What follows a function type -/

theorem Suffixes.append (h : Suffixes ts j us) (h' : Suffixes us k vs) :
    Suffixes ts (j + k) vs := by
  induction h with
  | nil => rwa [Nat.zero_add]
  | cons hopen hclose _ ih =>
    rw [Nat.add_right_comm]
    exact .cons hopen hclose (ih h')

theorem Derives.suffix {settled : Bool} (h : Derives settled .suffixed ts e us)
    (hsuffixes : Suffixes us k vs) : ∃ e', Derives settled .suffixed ts e' vs := by
  cases h with
  | suffixed h hbefore => exact ⟨_, .suffixed h (hbefore.append hsuffixes)⟩

/-- What `p` is when suffixes and alternatives follow it. An empty list of alternatives cannot take
in suffixes. -/
def Extends : Nonterminal → List Token → List Token → Prop
  | .type, ts, us => ∀ {k vs es rest}, Suffixes us k vs → Derives true .alternatives vs es rest →
    ∃ e, Derives true .type ts e rest
  | .arrow, ts, us => ∀ {k vs es rest}, Suffixes us k vs → Derives true .alternatives vs es rest →
    ∃ e, Derives true .arrow ts e rest
  | .alternatives, ts, us => ∀ {k vs es rest}, Suffixes us k vs →
    Derives true .alternatives vs es rest →
    ts = us ∨ ∃ es, Derives true .alternatives ts es rest
  | _, _, _ => True

/-- **A function type** at the end of a type takes in the suffixes and alternatives behind it. -/
theorem Derives.extend (h : Derives true p ts m us) : Extends p ts us := by
  induction h with
  | type hbar h _ _ ih' =>
    intro k vs es rest hsuffixes halternatives
    rcases ih' hsuffixes halternatives with rfl | ⟨es', h'⟩
    · obtain ⟨e', h⟩ := h.suffix hsuffixes
      exact ⟨_, .type hbar h halternatives⟩
    · exact ⟨_, .type hbar h h'⟩
  | onlyArrow _ hbar _ ih =>
    intro k vs es rest hsuffixes halternatives
    obtain ⟨e', h⟩ := ih hsuffixes halternatives
    exact ⟨e', .onlyArrow rfl hbar h⟩
  | noAlternative => exact fun _ _ => .inl rfl
  | alternative ht h _ _ ih' =>
    intro k vs es rest hsuffixes halternatives
    right
    rcases ih' hsuffixes halternatives with rfl | ⟨es', h'⟩
    · obtain ⟨e', h⟩ := h.suffix hsuffixes
      exact ⟨_, .alternative ht h halternatives⟩
    · exact ⟨_, .alternative ht h h'⟩
  | lastArrow _ ht _ ih =>
    intro k vs es rest hsuffixes halternatives
    obtain ⟨e', h⟩ := ih hsuffixes halternatives
    exact .inr ⟨[e'], .lastArrow rfl ht h⟩
  | arrow h ht _ _ ih' =>
    intro k vs es rest hsuffixes halternatives
    obtain ⟨e', h'⟩ := ih' hsuffixes halternatives
    exact ⟨_, .arrow h ht h'⟩
  | _ => trivial

/-! ### From derivations to settled derivations -/

/-- The tokens of a phrase of `p` are one in the settled grammar. What is a part of a type like any
other may turn out to be a function type. -/
def Settles : Nonterminal → List Token → List Token → Prop
  | .primary, ts, rest | .suffixed, ts, rest =>
    (∃ e, Derives true .suffixed ts e rest) ∨ ∃ e, Derives true .arrow ts e rest
  | p, ts, rest => ∃ m, Derives true p ts m rest

theorem settles_primary (h : Derives true .primary ts e rest) : Settles .primary ts rest :=
  .inl ⟨_, .suffixed h .nil⟩

/-- **Derivations can be settled.** What the grammar derives, the settled grammar derives too. -/
theorem Derives.settle (h : Derives false p ts m rest) : Settles p ts rest := by
  induction h with
  | type hbar _ _ ih ih' =>
    obtain ⟨es, h'⟩ := ih'
    rcases ih with ⟨e, h⟩ | ⟨e, h⟩
    · exact ⟨_, .type hbar h h'⟩
    · obtain ⟨e', h⟩ := h.extend .nil h'
      exact ⟨e', .onlyArrow rfl hbar h⟩
  | onlyArrow hsettled => cases hsettled
  | noAlternative => exact ⟨[], .noAlternative⟩
  | alternative ht _ _ ih ih' =>
    obtain ⟨es, h'⟩ := ih'
    rcases ih with ⟨e, h⟩ | ⟨e, h⟩
    · exact ⟨_, .alternative ht h h'⟩
    · obtain ⟨e', h⟩ := h.extend .nil h'
      exact ⟨[e'], .lastArrow rfl ht h⟩
  | lastArrow hsettled => cases hsettled
  | suffixed _ hsuffixes ih =>
    rcases ih with ⟨e, h⟩ | ⟨e, h⟩
    · exact .inl (h.suffix hsuffixes)
    · exact .inr (h.extend hsuffixes .noAlternative)
  | arrow _ ht _ ih ih' =>
    obtain ⟨ps, h⟩ := ih
    obtain ⟨e, h'⟩ := ih'
    exact ⟨_, .arrow h ht h'⟩
  | freeArrow _ _ ih => exact .inr ih
  | object _ ih =>
    obtain ⟨ms, h⟩ := ih
    exact settles_primary (.object h)
  | parens hopen _ hclose ih =>
    obtain ⟨e, h⟩ := ih
    exact settles_primary (.parens hopen h hclose)
  | string ht => exact settles_primary (.string ht)
  | number h => exact settles_primary (.number h)
  | truth ht => exact settles_primary (.truth ht)
  | falsity ht => exact settles_primary (.falsity ht)
  | null ht => exact settles_primary (.null ht)
  | undefined ht => exact settles_primary (.undefined ht)
  | keyword ht hword => exact settles_primary (.keyword ht hword)
  | reference hword hoperator hname _ ih =>
    obtain ⟨es, h⟩ := ih
    exact settles_primary (.reference hword hoperator hname h)
  | noArguments => exact ⟨[], .noArguments⟩
  | arguments hopen _ _ hclose ih ih' =>
    obtain ⟨e, h⟩ := ih
    obtain ⟨es, h'⟩ := ih'
    exact ⟨_, .arguments hopen h h' hclose⟩
  | noArgument => exact ⟨[], .noArgument⟩
  | argument ht _ _ ih ih' =>
    obtain ⟨e, h⟩ := ih
    obtain ⟨es, h'⟩ := ih'
    exact ⟨_, .argument ht h h'⟩
  | body hopen _ hclose ih =>
    obtain ⟨ms, h⟩ := ih
    exact ⟨ms, .body hopen h hclose⟩
  | noMember => exact ⟨[], .noMember⟩
  | members _ hseparator _ ih ih' =>
    obtain ⟨m, h⟩ := ih
    obtain ⟨ms, h'⟩ := ih'
    exact ⟨_, .members h hseparator h'⟩
  | property hname hoptional hcolon _ ih =>
    obtain ⟨e, h⟩ := ih
    exact ⟨_, .property hname hoptional hcolon h⟩
  | method hname hoptional _ hcolon _ ih ih' =>
    obtain ⟨ps, h⟩ := ih
    obtain ⟨e, h'⟩ := ih'
    exact ⟨_, .method hname hoptional h hcolon h'⟩
  | parameters hopen _ hclose ih =>
    obtain ⟨ps, h⟩ := ih
    exact ⟨ps, .parameters hopen h hclose⟩
  | noEntry => exact ⟨[], .noEntry⟩
  | lastEntry hname hoptional hcolon _ ih =>
    obtain ⟨e, h⟩ := ih
    exact ⟨_, .lastEntry hname hoptional hcolon h⟩
  | entries hname hoptional hcolon _ hcomma _ ih ih' =>
    obtain ⟨e, h⟩ := ih
    obtain ⟨ps, h'⟩ := ih'
    exact ⟨_, .entries hname hoptional hcolon h hcomma h'⟩

theorem Declares.settle {doc : Option String} {d : Declaration}
    (h : Declares false doc ts d rest) : ∃ d', Declares true doc ts d' rest := by
  cases h with
  | interface hword hname hbases h =>
    obtain ⟨ms, h⟩ := h.settle
    exact ⟨_, .interface hword hname hbases h⟩
  | typeAlias hword hname hequals h hclosing =>
    obtain ⟨e, h⟩ := h.settle
    exact ⟨_, .typeAlias hword hname hequals h hclosing⟩
  | enumeration hconst hword hname hopen h hclose =>
    exact ⟨_, .enumeration hconst hword hname hopen h hclose⟩

theorem Items.settle {is : List Import} {ds : List Declaration} (h : Items false ts is ds rest) :
    ∃ is' ds', Items true ts is' ds' rest := by
  induction h with
  | nil => exact ⟨[], [], .nil⟩
  | blank ht _ ih =>
    obtain ⟨is', ds', ih⟩ := ih
    exact ⟨is', ds', .blank ht ih⟩
  | importing h _ ih =>
    obtain ⟨is', ds', ih⟩ := ih
    exact ⟨_, ds', .importing h ih⟩
  | declaring hmodifiers h _ ih =>
    obtain ⟨d', h⟩ := h.settle
    obtain ⟨is', ds', ih⟩ := ih
    exact ⟨is', _, .declaring hmodifiers h ih⟩

end Grammar

end DeclaredSchema
