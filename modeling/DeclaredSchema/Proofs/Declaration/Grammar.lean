import DeclaredSchema.Declaration.OfTokens

/-!
# The grammar of declaration files

What a declaration file is, said by derivations and without any order in which tokens are looked at.
`Derives p ts m rest` says that the tokens of `ts` before `rest` are a phrase of the nonterminal
`p`, with the meaning `m`. The other relations read in the same way.

## What the grammar leaves open

As it is written, the grammar leaves two choices open. A semicolon behind an alias or an import may
belong to it or stand for itself, which does not matter for the meaning of a file. But `() => A[]`
is a function with an array as its result, or an array of functions, and in the same way for
`() => A | B`. The grammar is `settled` when this choice is made: a function type may only be the
last part of a type, so its result extends as far as it can.

## Main definitions

* `Derives` — types, members and parameters
* `Imports`, `Declares`, `Items` — what stands at the top level
* `IsFile` — the files of the grammar
-/

namespace DeclaredSchema

open OfTokens

namespace Grammar

/-! ### Phrases without types -/

/-- `[kind]` -/
inductive Optionally (kind : TokenKind) : List Token → Bool → List Token → Prop
  | absent {ts : List Token} : Optionally kind ts false ts
  | present {t : Token} {ts : List Token} (h : t.kind = kind) : Optionally kind (t :: ts) true ts

/-- `("." Name)*` -/
inductive Qualifiers : List Token → String → List Token → Prop
  | nil {ts : List Token} : Qualifiers ts "" ts
  | cons {dot name : Token} {ts rest : List Token} {more : String} (hdot : dot.kind = .symbol .dot)
      (hname : name.kind.isName = true) (h : Qualifiers ts more rest) :
      Qualifiers (dot :: name :: ts) ("." ++ name.text ++ more) rest

/-- `IDENT ("." Name)*` -/
inductive QualifiedName : List Token → String → List Token → Prop
  | mk {head : Token} {ts rest : List Token} {more : String} (hhead : head.kind = .identifier)
      (h : Qualifiers ts more rest) : QualifiedName (head :: ts) (head.text ++ more) rest

/-- `["-"] (INTEGER | FLOAT)`, where the token of the number has a value -/
inductive Number : List Token → Literal → List Token → Prop
  | mk {ts rest : List Token} {negative : Bool} {t : Token} {value : Literal}
      (hminus : Optionally (.symbol .minus) ts negative (t :: rest))
      (ht : t.kind = .integer ∨ t.kind = .float) (hvalue : numberValue t = .ok value) :
      Number ts (if negative then negated value else value) rest

/-- `("[" "]")*`, as the number of repetitions -/
inductive Suffixes : List Token → Nat → List Token → Prop
  | nil {ts : List Token} : Suffixes ts 0 ts
  | cons {opening closing : Token} {ts rest : List Token} {k : Nat}
      (hopen : opening.kind = .symbol .bracketOpen) (hclose : closing.kind = .symbol .bracketClose)
      (h : Suffixes ts k rest) : Suffixes (opening :: closing :: ts) (k + 1) rest

/-- `[readonly] (Name | STRING) | INTEGER` -/
inductive MemberName : List Token → Bool × Token → List Token → Prop
  | plain {t : Token} {ts : List Token}
      (h : t.kind.isName = true ∨ t.kind = .string ∨ t.kind = .integer) :
      MemberName (t :: ts) (false, t) ts
  | modified {word t : Token} {ts : List Token} (hword : word.kind = .keyword .readonlyWord)
      (h : t.kind.isName = true ∨ t.kind = .string) : MemberName (word :: t :: ts) (true, t) ts

/-- `[";" | ","]` -/
inductive Separator : List Token → List Token → Prop
  | none {ts : List Token} : Separator ts ts
  | mark {t : Token} {ts : List Token} (h : t.kind = .symbol .semicolon ∨ t.kind = .symbol .comma) :
      Separator (t :: ts) ts

/-! ### Types, members and parameters -/

/-- The nonterminals that need each other. -/
inductive Nonterminal where
  | type | alternatives | suffixed | primary | arrow | arguments | furtherArguments | body | members
  | member | parameters | entries

/-- What a phrase means. -/
abbrev Nonterminal.Meaning : Nonterminal → Type
  | type | suffixed | primary | arrow => TypeExpr
  | alternatives | arguments | furtherArguments => List TypeExpr
  | body | members => List (Property TypeExpr)
  | member => Property TypeExpr
  | parameters | entries => List (Parameter TypeExpr)

/-- A type with alternatives; one alternative is no union. -/
def unionOf (first : TypeExpr) (more : List TypeExpr) : TypeExpr :=
  if more.isEmpty then first else .union (first :: more)

/-- An array of arrays of …, with `k` suffixes behind the element type. -/
def arrays : Nat → TypeExpr → TypeExpr
  | 0, e => e
  | k + 1, e => arrays k (.array e)

/-- The phrases of the nonterminals. -/
inductive Derives (settled : Bool) :
    (p : Nonterminal) → List Token → p.Meaning → List Token → Prop
  /-- `["|"] Suffixed ("|" Suffixed)*` -/
  | type {ts us vs rest : List Token} {bar : Bool} {e : TypeExpr} {es : List TypeExpr}
      (hbar : Optionally (.symbol .pipe) ts bar us) (h : Derives settled .suffixed us e vs)
      (h' : Derives settled .alternatives vs es rest) :
      Derives settled .type ts (unionOf e es) rest
  /-- A type that is a function type -/
  | onlyArrow {ts us rest : List Token} {bar : Bool} {e : TypeExpr} (hsettled : settled = true)
      (hbar : Optionally (.symbol .pipe) ts bar us) (h : Derives settled .arrow us e rest) :
      Derives settled .type ts e rest
  /-- `("|" Suffixed)*` -/
  | noAlternative {ts : List Token} : Derives settled .alternatives ts [] ts
  | alternative {t : Token} {ts us rest : List Token} {e : TypeExpr} {es : List TypeExpr}
      (ht : t.kind = .symbol .pipe) (h : Derives settled .suffixed ts e us)
      (h' : Derives settled .alternatives us es rest) :
      Derives settled .alternatives (t :: ts) (e :: es) rest
  /-- A function type as the last alternative -/
  | lastArrow {t : Token} {ts rest : List Token} {e : TypeExpr} (hsettled : settled = true)
      (ht : t.kind = .symbol .pipe) (h : Derives settled .arrow ts e rest) :
      Derives settled .alternatives (t :: ts) [e] rest
  /-- `Primary ("[" "]")*` -/
  | suffixed {ts us rest : List Token} {e : TypeExpr} {k : Nat}
      (h : Derives settled .primary ts e us) (hsuffixes : Suffixes us k rest) :
      Derives settled .suffixed ts (arrays k e) rest
  /-- `Parameters "=>" Type` -/
  | arrow {t : Token} {ts us rest : List Token} {ps : List (Parameter TypeExpr)} {e : TypeExpr}
      (h : Derives settled .parameters ts ps (t :: us)) (ht : t.kind = .symbol .arrow)
      (h' : Derives settled .type us e rest) : Derives settled .arrow ts (.function ps e) rest
  /-- A function type as a part of a type like any other -/
  | freeArrow {ts rest : List Token} {e : TypeExpr} (hfree : settled = false)
      (h : Derives settled .arrow ts e rest) : Derives settled .primary ts e rest
  | object {t : Token} {ts rest : List Token} {ms : List (Property TypeExpr)}
      (h : Derives settled .body (t :: ts) ms rest) :
      Derives settled .primary (t :: ts) (.object ms t.position) rest
  /-- `"(" Type ")"` -/
  | parens {opening closing : Token} {ts rest : List Token} {e : TypeExpr}
      (hopen : opening.kind = .symbol .parenOpen) (h : Derives settled .type ts e (closing :: rest))
      (hclose : closing.kind = .symbol .parenClose) :
      Derives settled .primary (opening :: ts) e rest
  | string {t : Token} {ts : List Token} (ht : t.kind = .string) :
      Derives settled .primary (t :: ts) (.literal (.str t.text)) ts
  | number {ts rest : List Token} {value : Literal} (h : Number ts value rest) :
      Derives settled .primary ts (.literal value) rest
  | truth {t : Token} {ts : List Token} (ht : t.kind = .keyword .trueWord) :
      Derives settled .primary (t :: ts) (.literal (.bool true)) ts
  | falsity {t : Token} {ts : List Token} (ht : t.kind = .keyword .falseWord) :
      Derives settled .primary (t :: ts) (.literal (.bool false)) ts
  | null {t : Token} {ts : List Token} (ht : t.kind = .keyword .nullWord) :
      Derives settled .primary (t :: ts) (.keyword .null) ts
  | undefined {t : Token} {ts : List Token} (ht : t.kind = .keyword .undefinedWord) :
      Derives settled .primary (t :: ts) (.keyword .undefined) ts
  | keyword {t : Token} {ts : List Token} {word : TypeKeyword} (ht : t.kind = .identifier)
      (hword : TypeKeyword.ofIdentifier? t.text = some word) :
      Derives settled .primary (t :: ts) (.keyword word) ts
  /-- `QName ["<" Type ("," Type)* ">"]` -/
  | reference {t : Token} {ts us rest : List Token} {name : String} {es : List TypeExpr}
      (hword : TypeKeyword.ofIdentifier? t.text = none) (hoperator : t.text ∉ operatorWords)
      (hname : QualifiedName (t :: ts) name us) (h : Derives settled .arguments us es rest) :
      Derives settled .primary (t :: ts) (.reference name es t.position) rest
  | noArguments {ts : List Token} : Derives settled .arguments ts [] ts
  | arguments {opening closing : Token} {ts us rest : List Token} {e : TypeExpr}
      {es : List TypeExpr} (hopen : opening.kind = .symbol .angleOpen)
      (h : Derives settled .type ts e us)
      (h' : Derives settled .furtherArguments us es (closing :: rest))
      (hclose : closing.kind = .symbol .angleClose) :
      Derives settled .arguments (opening :: ts) (e :: es) rest
  /-- `("," Type)*` -/
  | noArgument {ts : List Token} : Derives settled .furtherArguments ts [] ts
  | argument {t : Token} {ts us rest : List Token} {e : TypeExpr} {es : List TypeExpr}
      (ht : t.kind = .symbol .comma) (h : Derives settled .type ts e us)
      (h' : Derives settled .furtherArguments us es rest) :
      Derives settled .furtherArguments (t :: ts) (e :: es) rest
  /-- A list of members between braces -/
  | body {opening closing : Token} {ts rest : List Token} {ms : List (Property TypeExpr)}
      (hopen : opening.kind = .symbol .braceOpen)
      (h : Derives settled .members ts ms (closing :: rest))
      (hclose : closing.kind = .symbol .braceClose) :
      Derives settled .body (opening :: ts) ms rest
  /-- `(Member [";" | ","])*` -/
  | noMember {ts : List Token} : Derives settled .members ts [] ts
  | members {ts us vs rest : List Token} {m : Property TypeExpr} {ms : List (Property TypeExpr)}
      (h : Derives settled .member ts m us) (hseparator : Separator us vs)
      (h' : Derives settled .members vs ms rest) : Derives settled .members ts (m :: ms) rest
  /-- `MemberName ["?"] ":" Type` -/
  | property {first name colon : Token} {ts us vs rest : List Token} {modified optional : Bool}
      {e : TypeExpr} (hname : MemberName (first :: ts) (modified, name) us)
      (hoptional : Optionally (.symbol .question) us optional (colon :: vs))
      (hcolon : colon.kind = .symbol .colon) (h : Derives settled .type vs e rest) :
      Derives settled .member (first :: ts)
        ⟨name.text, e, optional, modified, first.doc, name.position⟩ rest
  /-- `MemberName ["?"] Parameters ":" Type` -/
  | method {first name colon : Token} {ts us vs ws rest : List Token} {modified optional : Bool}
      {ps : List (Parameter TypeExpr)} {e : TypeExpr}
      (hname : MemberName (first :: ts) (modified, name) us)
      (hoptional : Optionally (.symbol .question) us optional vs)
      (h : Derives settled .parameters vs ps (colon :: ws)) (hcolon : colon.kind = .symbol .colon)
      (h' : Derives settled .type ws e rest) :
      Derives settled .member (first :: ts)
        ⟨name.text, .function ps e, optional, modified, first.doc, name.position⟩ rest
  /-- `"(" [Entry ("," Entry)* [","]] ")"` where an entry is `Name ["?"] ":" Type` -/
  | parameters {opening closing : Token} {ts rest : List Token} {ps : List (Parameter TypeExpr)}
      (hopen : opening.kind = .symbol .parenOpen)
      (h : Derives settled .entries ts ps (closing :: rest))
      (hclose : closing.kind = .symbol .parenClose) :
      Derives settled .parameters (opening :: ts) ps rest
  | noEntry {ts : List Token} : Derives settled .entries ts [] ts
  | lastEntry {name colon : Token} {ts us rest : List Token} {optional : Bool} {e : TypeExpr}
      (hname : name.kind.isName = true)
      (hoptional : Optionally (.symbol .question) ts optional (colon :: us))
      (hcolon : colon.kind = .symbol .colon) (h : Derives settled .type us e rest) :
      Derives settled .entries (name :: ts) [⟨name.text, e, optional⟩] rest
  | entries {name colon comma : Token} {ts us vs rest : List Token} {optional : Bool}
      {e : TypeExpr} {ps : List (Parameter TypeExpr)} (hname : name.kind.isName = true)
      (hoptional : Optionally (.symbol .question) ts optional (colon :: us))
      (hcolon : colon.kind = .symbol .colon) (h : Derives settled .type us e (comma :: vs))
      (hcomma : comma.kind = .symbol .comma) (h' : Derives settled .entries vs ps rest) :
      Derives settled .entries (name :: ts) (⟨name.text, e, optional⟩ :: ps) rest

/-! ### The top level -/

/-- `[P ("," P)* [","]]` -/
inductive Listed {α : Type} (P : List Token → α → List Token → Prop) :
    List Token → List α → List Token → Prop
  | nil {ts : List Token} : Listed P ts [] ts
  | last {ts rest : List Token} {x : α} (h : P ts x rest) : Listed P ts [x] rest
  | more {t : Token} {ts us rest : List Token} {x : α} {xs : List α} (h : P ts x (t :: us))
      (ht : t.kind = .symbol .comma) (h' : Listed P us xs rest) : Listed P ts (x :: xs) rest

/-- `Name [as Name]`, as the name that it goes by -/
inductive Specifier : List Token → String → List Token → Prop
  | plain {t : Token} {ts : List Token} (ht : t.kind.isName = true) : Specifier (t :: ts) t.text ts
  | renamed {t word t' : Token} {ts : List Token} (ht : t.kind.isName = true)
      (hword : word.kind = .identifier) (htext : word.text = "as") (ht' : t'.kind.isName = true) :
      Specifier (t :: word :: t' :: ts) t'.text ts

/-- What an import brings in. -/
inductive Clause : List Token → List String → List Token → Prop
  | names {opening closing : Token} {ts rest : List Token} {names : List String}
      (hopen : opening.kind = .symbol .braceOpen)
      (h : Listed Specifier ts names (closing :: rest))
      (hclose : closing.kind = .symbol .braceClose) : Clause (opening :: ts) names rest
  | all {star word t : Token} {ts : List Token} (hstar : star.kind = .symbol .star)
      (hword : word.kind = .identifier) (htext : word.text = "as") (ht : t.kind = .identifier) :
      Clause (star :: word :: t :: ts) [t.text] ts
  | single {t : Token} {ts : List Token} (ht : t.kind = .identifier) : Clause (t :: ts) [t.text] ts

/-- `[";"]` -/
inductive Closing : List Token → List Token → Prop
  | none {ts : List Token} : Closing ts ts
  | semicolon {t : Token} {ts : List Token} (ht : t.kind = .symbol .semicolon) :
      Closing (t :: ts) ts

/-- `import [type] Clause from STRING [";"]` -/
inductive Imports : List Token → Import → List Token → Prop
  | mk {word origin source : Token} {ts us vs rest : List Token} {typed : Bool}
      {names : List String} (hword : word.kind = .keyword .importWord)
      (htype : Optionally (.keyword .typeWord) ts typed us)
      (hclause : Clause us names (origin :: source :: vs))
      (horigin : origin.kind = .keyword .fromWord) (hsource : source.kind = .string)
      (hclosing : Closing vs rest) : Imports (word :: ts) ⟨source.text, names⟩ rest

/-- `("," QName)*` -/
inductive FurtherBases : List Token → List String → List Token → Prop
  | nil {ts : List Token} : FurtherBases ts [] ts
  | cons {t : Token} {ts us rest : List Token} {name : String} {names : List String}
      (ht : t.kind = .symbol .comma) (h : QualifiedName ts name us)
      (h' : FurtherBases us names rest) : FurtherBases (t :: ts) (name :: names) rest

/-- `[extends QName ("," QName)*]` -/
inductive Bases : List Token → List String → List Token → Prop
  | none {ts : List Token} : Bases ts [] ts
  | some {word : Token} {ts us rest : List Token} {name : String} {names : List String}
      (hword : word.kind = .keyword .extendsWord) (h : QualifiedName ts name us)
      (h' : FurtherBases us names rest) : Bases (word :: ts) (name :: names) rest

/-- `["=" (STRING | Number)]` -/
inductive Initializer : List Token → Option Literal → List Token → Prop
  | none {ts : List Token} : Initializer ts none ts
  | string {equals t : Token} {ts : List Token} (hequals : equals.kind = .symbol .equals)
      (ht : t.kind = .string) : Initializer (equals :: t :: ts) (some (.str t.text)) ts
  | number {equals : Token} {ts rest : List Token} {value : Literal}
      (hequals : equals.kind = .symbol .equals) (h : Number ts value rest) :
      Initializer (equals :: ts) (some value) rest

/-- `(Name | STRING) ["=" (STRING | Number)]` -/
inductive EnumMember : List Token → EnumEntry → List Token → Prop
  | mk {t : Token} {ts rest : List Token} {value : Option Literal}
      (ht : t.kind.isName = true ∨ t.kind = .string) (h : Initializer ts value rest) :
      EnumMember (t :: ts) ⟨t.text, value, t.doc⟩ rest

/-- A declaration without its modifiers. -/
inductive Declares (settled : Bool) (doc : Option String) :
    List Token → Declaration → List Token → Prop
  /-- `interface IDENT [extends QName ("," QName)*] Body` -/
  | interface {word name : Token} {ts us rest : List Token} {bases : List String}
      {ms : List (Property TypeExpr)} (hword : word.kind = .keyword .interfaceWord)
      (hname : name.kind = .identifier) (hbases : Bases ts bases us)
      (h : Derives settled .body us ms rest) :
      Declares settled doc (word :: name :: ts)
        (.interface ⟨name.text, bases, ms, doc, name.position⟩) rest
  /-- `type IDENT "=" Type [";"]` -/
  | typeAlias {word name equals : Token} {ts us rest : List Token} {e : TypeExpr}
      (hword : word.kind = .keyword .typeWord) (hname : name.kind = .identifier)
      (hequals : equals.kind = .symbol .equals) (h : Derives settled .type ts e us)
      (hclosing : Closing us rest) :
      Declares settled doc (word :: name :: equals :: ts)
        (.typeAlias ⟨name.text, e, doc, name.position⟩) rest
  /-- `[const] enum IDENT "{" [EnumMember ("," EnumMember)* [","]] "}"` -/
  | enumeration {word name opening closing : Token} {ts us rest : List Token} {fixed : Bool}
      {members : List EnumEntry}
      (hconst : Optionally (.keyword .constWord) ts fixed (word :: name :: opening :: us))
      (hword : word.kind = .keyword .enumWord) (hname : name.kind = .identifier)
      (hopen : opening.kind = .symbol .braceOpen)
      (h : Listed EnumMember us members (closing :: rest))
      (hclose : closing.kind = .symbol .braceClose) :
      Declares settled doc ts (.enumeration ⟨name.text, members, doc, name.position⟩) rest

/-- `(export | declare)*` -/
inductive Modifiers : List Token → List Token → Prop
  | nil {ts : List Token} : Modifiers ts ts
  | cons {t : Token} {ts rest : List Token}
      (ht : t.kind = .keyword .exportWord ∨ t.kind = .keyword .declareWord)
      (h : Modifiers ts rest) : Modifiers (t :: ts) rest

/-- `(";" | Import | Modifiers Declaration)*`, where the documentation of a declaration stands
before its first token -/
inductive Items (settled : Bool) :
    List Token → List Import → List Declaration → List Token → Prop
  | nil {ts : List Token} : Items settled ts [] [] ts
  | blank {t : Token} {ts rest : List Token} {is : List Import} {ds : List Declaration}
      (ht : t.kind = .symbol .semicolon) (h : Items settled ts is ds rest) :
      Items settled (t :: ts) is ds rest
  | importing {ts us rest : List Token} {i : Import} {is : List Import} {ds : List Declaration}
      (h : Imports ts i us) (h' : Items settled us is ds rest) :
      Items settled ts (i :: is) ds rest
  | declaring {first : Token} {ts us vs rest : List Token} {d : Declaration} {is : List Import}
      {ds : List Declaration} (hmodifiers : Modifiers (first :: ts) us)
      (h : Declares settled first.doc us d vs) (h' : Items settled vs is ds rest) :
      Items settled (first :: ts) is (d :: ds) rest

/-- The tokens up to the end of the file are a file of the grammar, with the given meaning. -/
def IsFile (settled : Bool) (ts : List Token) (u : SourceUnit) : Prop :=
  ∃ last : Token, last.kind = .endOfFile ∧ Items settled ts u.imports u.declarations [last]

end Grammar

end DeclaredSchema
