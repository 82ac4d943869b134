import DeclaredSchema.Declaration
import DeclaredSchema.Number.Reading
import DeclaredSchema.Token.Scan

/-!
# From tokens to declarations

Each nonterminal of the grammar is a function that takes the tokens that are left and returns what
it read with the tokens behind it. Which alternative applies is decided by the next token, but for
two places: a word before a name is a modifier or the name itself, and an opening parenthesis starts
a parameter list or encloses a type. Both are settled by looking a few tokens further.

The functions for types, members and parameters call each other, so they take a bound on the depth
of these calls. `SourceUnit.ofTokens` computes one from the number of tokens that no file reaches,
because every round of calls takes a token.

## Main definitions

* `ParseFault`, `ParseError`, `SyntaxError` — what can be wrong, and where
* `OfTokens.typeExpr`, `OfTokens.member`, … — the nonterminals
* `SourceUnit.ofTokens`, `SourceUnit.parse` — a whole file
-/

namespace DeclaredSchema

open Text

/-! ## Errors -/

/-- Constructs that are recognised and refused. -/
inductive Unsupported where
  | genericInterface | genericBase | genericAlias | indexSignature | callSignature | genericMethod
  | intersection | indexedAccess | tuple
  | operator (word : String)
  deriving DecidableEq, Repr

def Unsupported.phrase : Unsupported → String
  | genericInterface => "Generic interface declarations"
  | genericBase => "Generic base interfaces"
  | genericAlias => "Generic type aliases"
  | indexSignature => "Index signatures"
  | callSignature => "Call signatures on object types"
  | genericMethod => "Generic methods"
  | intersection => "Intersection types"
  | indexedAccess => "Indexed access types"
  | tuple => "Tuple types"
  | operator word => "'" ++ word ++ "' type operators"

/-- What can be wrong with a sequence of tokens; `got` is the text of the token in question. -/
inductive ParseFault where
  | expected (kinds : List TokenKind) (got : String)
  | expectedName (got : String)
  | expectedType (got : String)
  | expectedAs (got : String)
  | misplaced (got : String)
  | unsupported (what : Unsupported)
  deriving DecidableEq, Repr

/-- A fault with the place of the token in question. -/
structure ParseError where
  fault : ParseFault
  position : Position
  deriving DecidableEq, Repr

def ParseFault.message : ParseFault → String
  | expected kinds got =>
    "Expected " ++ ", ".intercalate (kinds.map fun k => quote k.label) ++ ", got " ++ quote got
  | expectedName got => "Expected identifier, got " ++ quote got
  | expectedType got => "Expected a type, got " ++ quote got
  | expectedAs got => "Expected 'as', got " ++ quote got
  | misplaced got => "Unexpected token " ++ quote got ++ " at top level"
  | unsupported what => what.phrase ++ " are not supported"

def ParseError.message (e : ParseError) : String := e.position.lead ++ e.fault.message

/-- Why a text is no declaration file. A run of digits that is no number is reported as such and
has no place. -/
inductive SyntaxError where
  | scan (error : ScanError)
  | parse (error : ParseError)
  | numeral (fault : NumeralFault)
  deriving DecidableEq, Repr

def SyntaxError.message : SyntaxError → String
  | scan e => e.message
  | parse e => e.message
  | numeral f => f.message

namespace OfTokens

/-- A result or a syntax error. A nonterminal yields its meaning with the tokens behind it. -/
abbrev Outcome := Except SyntaxError

/-! ## Single tokens -/

/-- The next token; behind the last one the file goes on ending. -/
def here (ts : List Token) : Token := ts.headD default

/-- The kind of the token `k` places ahead. -/
def kindAt (ts : List Token) (k : Nat) : TokenKind := (here (ts.drop k)).kind

/-- Whether the next token is of the given kind. -/
def sees (kind : TokenKind) (ts : List Token) : Bool := (here ts).kind = kind

def seesMark (mark : Symbol) (ts : List Token) : Bool := sees (.symbol mark) ts

def seesWord (word : Keyword) (ts : List Token) : Bool := sees (.keyword word) ts

/-- Whether a list ends here: at its closing mark or at the end of the file. -/
def seesEnd (mark : Symbol) (ts : List Token) : Bool := seesMark mark ts || sees .endOfFile ts

/-- Refuses the next token. -/
def refuse {α : Type} (ts : List Token) (fault : String → ParseFault) : Outcome α :=
  .error (.parse ⟨fault (here ts).text, (here ts).position⟩)

/-- Refuses a construct that starts at the next token. -/
def unsupported {α : Type} (what : Unsupported) (ts : List Token) : Outcome α :=
  refuse ts fun _ => .unsupported what

/-- Takes the next token if it is of one of the given kinds. -/
def expect (kinds : List TokenKind) (ts : List Token) : Outcome (Token × List Token) :=
  if kinds.contains (here ts).kind then .ok (here ts, ts.tail) else refuse ts (.expected kinds)

def expectMark (mark : Symbol) (ts : List Token) : Outcome (Token × List Token) := expect [.symbol mark] ts

/-- Takes the next token if it is an identifier or a keyword. -/
def expectName (ts : List Token) : Outcome (Token × List Token) :=
  if (here ts).kind.isName then .ok (here ts, ts.tail) else refuse ts .expectedName

/-- Takes the next token if it is the given mark, and says whether it was. -/
def accept (mark : Symbol) (ts : List Token) : Bool × List Token :=
  if seesMark mark ts then (true, ts.tail) else (false, ts)

/-- The tokens behind an optional mark. -/
def skip (mark : Symbol) (ts : List Token) : List Token := (accept mark ts).2

/-- The comma between two entries of a list; the last entry may do without it. -/
def separator (closing : Symbol) (ts : List Token) : Outcome (List Token) :=
  if seesMark closing ts then .ok ts else (expectMark .comma ts).map Prod.snd

/-! ## Names and numbers -/

/-- `("." Name)*`, as a text that starts with its first point. -/
def qualifiers : List Token → Outcome (String × List Token)
  | dot :: name :: ts =>
    if dot.kind = .symbol .dot then
      if name.kind.isName then do
        let (more, rest) ← qualifiers ts
        return ("." ++ name.text ++ more, rest)
      else refuse (name :: ts) .expectedName
    else .ok ("", dot :: name :: ts)
  | ts => if seesMark .dot ts then refuse ts.tail .expectedName else .ok ("", ts)

/-- `IDENT ("." Name)*` -/
def qualifiedName (ts : List Token) : Outcome (String × List Token) := do
  let (head, ts) ← expect [.identifier] ts
  let (more, ts) ← qualifiers ts
  return (head.text ++ more, ts)

/-- The value of a token that is a number. -/
def numberValue (t : Token) : Outcome Literal :=
  if t.kind = .integer then
    match readInteger t.text with
    | .ok i => .ok (.int i)
    | .error f => .error (.numeral f)
  else
    match readReal t.text with
    | .ok x => .ok (.float x)
    | .error f => .error (.numeral f)

/-- A number with the other sign. -/
def negated : Literal → Literal
  | .int i => .int (-i)
  | .float x => .float x.negate
  | v => v

/-- `["-"] (INTEGER | FLOAT)` -/
def number (ts : List Token) : Outcome (Literal × List Token) := do
  let (negative, ts) := accept .minus ts
  let (t, ts) ← expect [.integer, .float] ts
  let value ← numberValue t
  return (if negative then negated value else value, ts)

/-! ## Types -/

/-- Words that would start a type operator. -/
def operatorWords : List String := ["keyof", "typeof", "infer", "unique"]

/-- `("[" "]")*` behind an element type. -/
def arraySuffixes (element : TypeExpr) : List Token → Outcome (TypeExpr × List Token)
  | opening :: closing :: ts =>
    if opening.kind = .symbol .bracketOpen then
      if closing.kind = .symbol .bracketClose then arraySuffixes (.array element) ts
      else unsupported .indexedAccess (opening :: closing :: ts)
    else .ok (element, opening :: closing :: ts)
  | ts => if seesMark .bracketOpen ts then unsupported .indexedAccess ts else .ok (element, ts)

/-- Whether the parenthesis at the front opens a parameter list: it is closed at once, or a name
follows with a mark that only parameters have, or a single name is closed before an arrow. -/
def opensFunction (ts : List Token) : Bool :=
  let after := kindAt ts 1
  let follow := kindAt ts 2
  after = .symbol .parenClose ||
    (after.isName &&
      (follow = .symbol .colon || follow = .symbol .question || follow = .symbol .comma ||
        (follow = .symbol .parenClose && kindAt ts 3 = .symbol .arrow)))

/-- The name of a member, with the modifier that may precede it. The word `readonly` is a modifier
only when a name or a string follows it. -/
def memberName (ts : List Token) : Outcome ((Bool × Token) × List Token) := do
  let modified := seesWord .readonlyWord ts && ((kindAt ts 1).isName || kindAt ts 1 = .string)
  let ts := if modified then ts.tail else ts
  if seesMark .bracketOpen ts then unsupported .indexSignature ts
  else if seesMark .parenOpen ts || seesMark .angleOpen ts then unsupported .callSignature ts
  else if sees .string ts || sees .integer ts then return ((modified, here ts), ts.tail)
  else do
    let (name, ts) ← expectName ts
    return ((modified, name), ts)

mutual

/-- `["|"] Suffixed ("|" Suffixed)*` -/
def typeExpr : Nat → List Token → Outcome (TypeExpr × List Token)
  | 0, ts => refuse ts .expectedType
  | n + 1, ts => do
    let (first, ts) ← suffixedType n (skip .pipe ts)
    let (more, ts) ← alternatives n ts
    if seesMark .ampersand ts then unsupported .intersection ts
    else return (if more.isEmpty then first else .union (first :: more), ts)

/-- `("|" Suffixed)*` -/
def alternatives : Nat → List Token → Outcome ((List TypeExpr) × List Token)
  | 0, ts => refuse ts .expectedType
  | n + 1, ts =>
    if seesMark .pipe ts then do
      let (first, ts) ← suffixedType n ts.tail
      let (more, ts) ← alternatives n ts
      return (first :: more, ts)
    else .ok ([], ts)

/-- `Primary ("[" "]")*` -/
def suffixedType : Nat → List Token → Outcome (TypeExpr × List Token)
  | 0, ts => refuse ts .expectedType
  | n + 1, ts => do
    let (element, ts) ← primaryType n ts
    arraySuffixes element ts

/-- An object type, a function type, a type in parentheses, a literal, a keyword or a reference. -/
def primaryType : Nat → List Token → Outcome (TypeExpr × List Token)
  | 0, ts => refuse ts .expectedType
  | n + 1, ts =>
    let t := here ts
    match t.kind with
    | .symbol .braceOpen => do
      let (members, rest) ← objectBody n ts
      return (.object members t.position, rest)
    | .symbol .parenOpen =>
      if opensFunction ts then do
        let (parameters, rest) ← parameterList n ts
        let (_, rest) ← expectMark .arrow rest
        let (result, rest) ← typeExpr n rest
        return (.function parameters result, rest)
      else do
        let (inner, rest) ← typeExpr n ts.tail
        let (_, rest) ← expectMark .parenClose rest
        return (inner, rest)
    | .symbol .bracketOpen => unsupported .tuple ts
    | .string => .ok (.literal (.str t.text), ts.tail)
    | .integer | .float | .symbol .minus => do
      let (value, rest) ← number ts
      return (.literal value, rest)
    | .keyword .trueWord => .ok (.literal (.bool true), ts.tail)
    | .keyword .falseWord => .ok (.literal (.bool false), ts.tail)
    | .keyword .nullWord => .ok (.keyword .null, ts.tail)
    | .keyword .undefinedWord => .ok (.keyword .undefined, ts.tail)
    | .identifier =>
      match TypeKeyword.ofIdentifier? t.text with
      | some word => .ok (.keyword word, ts.tail)
      | none =>
        if operatorWords.contains t.text then unsupported (.operator t.text) ts
        else do
          let (name, rest) ← qualifiedName ts
          let (arguments, rest) ← typeArguments n rest
          return (.reference name arguments t.position, rest)
    | _ => refuse ts .expectedType

/-- `["<" Type ("," Type)* ">"]` -/
def typeArguments : Nat → List Token → Outcome ((List TypeExpr) × List Token)
  | 0, ts => refuse ts .expectedType
  | n + 1, ts =>
    if seesMark .angleOpen ts then do
      let (first, ts) ← typeExpr n ts.tail
      let (more, ts) ← furtherArguments n ts
      let (_, ts) ← expectMark .angleClose ts
      return (first :: more, ts)
    else .ok ([], ts)

/-- `("," Type)*` -/
def furtherArguments : Nat → List Token → Outcome ((List TypeExpr) × List Token)
  | 0, ts => refuse ts .expectedType
  | n + 1, ts =>
    if seesMark .comma ts then do
      let (first, ts) ← typeExpr n ts.tail
      let (more, ts) ← furtherArguments n ts
      return (first :: more, ts)
    else .ok ([], ts)

/-- A list of members between braces. -/
def objectBody : Nat → List Token → Outcome ((List (Property TypeExpr)) × List Token)
  | 0, ts => refuse ts .expectedType
  | n + 1, ts => do
    let (_, ts) ← expectMark .braceOpen ts
    let (members, ts) ← memberList n ts
    let (_, ts) ← expectMark .braceClose ts
    return (members, ts)

/-- `(Member [";" | ","])*` -/
def memberList : Nat → List Token → Outcome ((List (Property TypeExpr)) × List Token)
  | 0, ts => refuse ts .expectedType
  | n + 1, ts =>
    if seesEnd .braceClose ts then .ok ([], ts)
    else do
      let (first, ts) ← member n ts
      let ts := if seesMark .semicolon ts then ts.tail else skip .comma ts
      let (more, ts) ← memberList n ts
      return (first :: more, ts)

/-- A property, or a method, which is a property with a function type. The documentation before
its first token is its own. -/
def member : Nat → List Token → Outcome ((Property TypeExpr) × List Token)
  | 0, ts => refuse ts .expectedType
  | n + 1, ts => do
    let doc := (here ts).doc
    let ((modified, name), ts) ← memberName ts
    let (optional, ts) := accept .question ts
    if seesMark .angleOpen ts then unsupported .genericMethod ts
    else do
      let (type, ts) ←
        if seesMark .parenOpen ts then do
          let (parameters, ts) ← parameterList n ts
          let (_, ts) ← expectMark .colon ts
          let (result, ts) ← typeExpr n ts
          pure (TypeExpr.function parameters result, ts)
        else do
          let (_, ts) ← expectMark .colon ts
          typeExpr n ts
      return (⟨name.text, type, optional, modified, doc, name.position⟩, ts)

/-- `"(" [Name ["?"] ":" Type ("," Name ["?"] ":" Type)* [","]] ")"` -/
def parameterList : Nat → List Token → Outcome ((List (Parameter TypeExpr)) × List Token)
  | 0, ts => refuse ts .expectedType
  | n + 1, ts => do
    let (_, ts) ← expectMark .parenOpen ts
    let (parameters, ts) ← parameterEntries n ts
    let (_, ts) ← expectMark .parenClose ts
    return (parameters, ts)

/-- The parameters up to the closing mark. -/
def parameterEntries : Nat → List Token → Outcome ((List (Parameter TypeExpr)) × List Token)
  | 0, ts => refuse ts .expectedType
  | n + 1, ts =>
    if seesEnd .parenClose ts then .ok ([], ts)
    else do
      let (name, ts) ← expectName ts
      let (optional, ts) := accept .question ts
      let (_, ts) ← expectMark .colon ts
      let (type, ts) ← typeExpr n ts
      let ts ← separator .parenClose ts
      let (more, ts) ← parameterEntries n ts
      return (⟨name.text, type, optional⟩ :: more, ts)

end

/-! ## Declarations -/

/-- A bound on the depth of calls for a list of tokens. Between two calls of one nonterminal at
least one token is taken, and there are eleven of them. -/
def depthBound (ts : List Token) : Nat := 12 * ts.length + 12

/-- `("," QName)*` -/
def furtherBases : Nat → List Token → Outcome ((List String) × List Token)
  | 0, ts => .ok ([], ts)
  | n + 1, ts =>
    if seesMark .comma ts then do
      let (first, ts) ← qualifiedName ts.tail
      let (more, ts) ← furtherBases n ts
      return (first :: more, ts)
    else .ok ([], ts)

/-- `["extends" QName ("," QName)*]` -/
def baseNames (ts : List Token) : Outcome ((List String) × List Token) :=
  if seesWord .extendsWord ts then do
    let (first, ts) ← qualifiedName ts.tail
    let (more, ts) ← furtherBases ts.length ts
    if seesMark .angleOpen ts then unsupported .genericBase ts
    else return (first :: more, ts)
  else .ok ([], ts)

/-- `"interface" IDENT ["extends" QName ("," QName)*] Body` -/
def interfaceDeclaration (doc : Option String) (ts : List Token) : Outcome (Declaration × List Token) := do
  let (_, ts) ← expect [.keyword .interfaceWord] ts
  let (name, ts) ← expect [.identifier] ts
  if seesMark .angleOpen ts then unsupported .genericInterface ts
  else do
    let (bases, ts) ← baseNames ts
    let (members, ts) ← objectBody (depthBound ts) ts
    return (.interface ⟨name.text, bases, members, doc, name.position⟩, ts)

/-- `"type" IDENT "=" Type [";"]` -/
def aliasDeclaration (doc : Option String) (ts : List Token) : Outcome (Declaration × List Token) := do
  let (_, ts) ← expect [.keyword .typeWord] ts
  let (name, ts) ← expect [.identifier] ts
  if seesMark .angleOpen ts then unsupported .genericAlias ts
  else do
    let (_, ts) ← expectMark .equals ts
    let (type, ts) ← typeExpr (depthBound ts) ts
    return (.typeAlias ⟨name.text, type, doc, name.position⟩, skip .semicolon ts)

/-- `["=" (STRING | Number)]` -/
def initializer (ts : List Token) : Outcome ((Option Literal) × List Token) :=
  if seesMark .equals ts then
    let ts := ts.tail
    if sees .string ts then .ok (some (.str (here ts).text), ts.tail)
    else (number ts).map fun (value, ts) => (some value, ts)
  else .ok (none, ts)

/-- The members of an enumeration up to the closing mark. -/
def enumEntries : Nat → List Token → Outcome ((List EnumEntry) × List Token)
  | 0, ts => .ok ([], ts)
  | n + 1, ts =>
    if seesEnd .braceClose ts then .ok ([], ts)
    else do
      let (name, ts) ← if sees .string ts then pure (here ts, ts.tail) else expectName ts
      let (value, ts) ← initializer ts
      let ts ← separator .braceClose ts
      let (more, ts) ← enumEntries n ts
      return (⟨name.text, value, name.doc⟩ :: more, ts)

/-- `"enum" IDENT` and a list of members between braces. -/
def enumDeclaration (doc : Option String) (ts : List Token) : Outcome (Declaration × List Token) := do
  let (_, ts) ← expect [.keyword .enumWord] ts
  let (name, ts) ← expect [.identifier] ts
  let (_, ts) ← expectMark .braceOpen ts
  let (members, ts) ← enumEntries ts.length ts
  let (_, ts) ← expectMark .braceClose ts
  return (.enumeration ⟨name.text, members, doc, name.position⟩, ts)

/-! ## Imports -/

/-- The names between the braces of an import; a renamed one counts by its new name. -/
def importedNames : Nat → List Token → Outcome ((List String) × List Token)
  | 0, ts => .ok ([], ts)
  | n + 1, ts =>
    if seesEnd .braceClose ts then .ok ([], ts)
    else do
      let (name, ts) ← expectName ts
      let (name, ts) ←
        if sees .identifier ts && (here ts).text = "as" then expectName ts.tail
        else pure (name, ts)
      let ts ← separator .braceClose ts
      let (more, ts) ← importedNames n ts
      return (name.text :: more, ts)

/-- What an import brings in: names between braces, a whole file under one name, or its default. -/
def importClause (ts : List Token) : Outcome ((List String) × List Token) :=
  if seesMark .braceOpen ts then do
    let (names, ts) ← importedNames ts.length ts.tail
    let (_, ts) ← expectMark .braceClose ts
    return (names, ts)
  else if seesMark .star ts then do
    let (word, rest) ← expect [.identifier] ts.tail
    if word.text ≠ "as" then refuse ts.tail .expectedAs
    else do
      let (name, rest) ← expect [.identifier] rest
      return ([name.text], rest)
  else do
    let (name, ts) ← expect [.identifier] ts
    return ([name.text], ts)

/-- `"import" ["type"] Clause "from" STRING [";"]` -/
def importDeclaration (ts : List Token) : Outcome (Import × List Token) := do
  let (_, ts) ← expect [.keyword .importWord] ts
  let ts := if seesWord .typeWord ts && kindAt ts 1 ≠ .keyword .fromWord then ts.tail else ts
  let (names, ts) ← importClause ts
  let (_, ts) ← expect [.keyword .fromWord] ts
  let (source, ts) ← expect [.string] ts
  return (⟨source.text, names⟩, skip .semicolon ts)

/-! ## Files -/

/-- What can stand at the top level. -/
inductive Item where
  | blank
  | importing (what : Import)
  | declaring (what : Declaration)

/-- The tokens behind the words that mark a declaration as visible from outside. -/
def afterModifiers (ts : List Token) : List Token :=
  ts.dropWhile fun t => t.kind = .keyword .exportWord || t.kind = .keyword .declareWord

/-- One item of the top level. The documentation before its first token is its own. -/
def item (ts : List Token) : Outcome (Item × List Token) :=
  let doc := (here ts).doc
  if seesMark .semicolon ts then .ok (.blank, ts.tail)
  else if seesWord .importWord ts then
    (importDeclaration ts).map fun (what, rest) => (.importing what, rest)
  else
    let ts := afterModifiers ts
    let declared :=
      if seesWord .interfaceWord ts then interfaceDeclaration doc ts
      else if seesWord .typeWord ts then aliasDeclaration doc ts
      else if seesWord .enumWord ts then enumDeclaration doc ts
      else if seesWord .constWord ts && kindAt ts 1 = .keyword .enumWord then
        enumDeclaration doc ts.tail
      else refuse ts .misplaced
    declared.map fun (what, rest) => (.declaring what, rest)

/-- All items up to the end of the file. -/
def items : Nat → List Token → Outcome (List Item)
  | 0, _ => .ok []
  | n + 1, ts =>
    if sees .endOfFile ts then .ok []
    else do
      let (first, ts) ← item ts
      let more ← items n ts
      return first :: more

def Item.import? : Item → Option Import
  | importing what => some what
  | _ => none

def Item.declaration? : Item → Option Declaration
  | declaring what => some what
  | _ => none

end OfTokens

namespace SourceUnit

/-- The file that a sequence of tokens describes. -/
def ofTokens (ts : List Token) : Except SyntaxError SourceUnit := do
  let items ← OfTokens.items ts.length ts
  return ⟨items.filterMap OfTokens.Item.import?, items.filterMap OfTokens.Item.declaration?⟩

/-- The file with the given text. -/
def parse (text : String) : Except SyntaxError SourceUnit :=
  match scan text with
  | .ok ts => ofTokens ts
  | .error e => .error (.scan e)

end SourceUnit

end DeclaredSchema
