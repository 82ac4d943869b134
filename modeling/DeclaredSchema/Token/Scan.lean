import DeclaredSchema.Token
import DeclaredSchema.Token.Doc
import DeclaredSchema.Text.Numeral
import DeclaredSchema.Text.Quoted

/-!
# From text to tokens

A text is cut from its front into lexemes: blanks, comments and tokens, each as long as it can be.
Reading a lexeme says how many characters it takes besides its first, so the rest of the text is
always shorter and the scan ends.

A documentation comment waits for the next token, and a later one replaces it. Blanks and plain
comments in between do not matter.

## Main definitions

* `ScanFault`, `ScanError` — what can be wrong with a text, and where
* `readLexeme` — the lexeme at the front of a text
* `scan` — all tokens of a text, with the end of the file as the last one
-/

namespace DeclaredSchema

open Text

/-- What can be wrong with a text. -/
inductive ScanFault where
  | unexpected (c : Char)
  | unterminatedString
  | unterminatedComment
  | invalidEscape (c : Char)
  deriving DecidableEq, Repr

/-- A fault with its place: where the string or comment starts, or where the character stands. -/
structure ScanError where
  fault : ScanFault
  position : Position
  deriving DecidableEq, Repr

def ScanFault.message : ScanFault → String
  | unexpected c => "Unexpected character: " ++ String.ofList (quoted [c])
  | unterminatedString => "Unterminated string literal"
  | unterminatedComment => "Unterminated block comment"
  | invalidEscape c => "Invalid escape sequence: '\\" ++ String.ofList [c] ++ "'"

def ScanError.message (e : ScanError) : String := e.position.lead ++ e.fault.message

/-! ## Character classes -/

/-- The characters that may stand between tokens, the byte order mark among them. -/
def isGap (c : Char) : Bool :=
  c = ' ' || c = '\t' || c = '\r' || c = '\n' || c = '\ufeff'

def isIdentifierStart (c : Char) : Bool := isLetter c || c = '_' || c = '$'

def isIdentifierPart (c : Char) : Bool := isAlphanumeric c || c = '_' || c = '$'

/-! ## Lexemes -/

/-- What can stand at the front of a text. -/
inductive Lexeme where
  | blank
  | comment
  | doc (text : Option String)
  | token (kind : TokenKind) (text : String)
  deriving DecidableEq, Repr

/-- A lexeme, and how many characters it takes besides its first. -/
structure LexemeRead where
  lexeme : Lexeme
  more : Nat
  deriving DecidableEq, Repr

/-- The text before the first closing mark of a block comment. -/
def commentBody? : List Char → Option (List Char)
  | [] => none
  | '*' :: '/' :: _ => some []
  | c :: rest => (commentBody? rest).map (c :: ·)

/-- The comment whose opening two characters come before `rest`. It documents what follows when its
body starts with a star that is not the star of the closing mark. -/
def blockComment (rest : List Char) (body : List Char) : LexemeRead :=
  let lexeme := match rest with
    | '*' :: '/' :: _ => Lexeme.comment
    | '*' :: _ => Lexeme.doc (Doc.clean (body.drop 1))
    | _ => Lexeme.comment
  ⟨lexeme, body.length + 3⟩

/-- The character that an escape stands for. -/
def escapeValue? : Char → Option Char
  | 'n' => some '\n'
  | 't' => some '\t'
  | 'r' => some '\r'
  | '\\' => some '\\'
  | '"' => some '"'
  | '\'' => some '\''
  | '0' => some '\x00'
  | _ => none

/-- How a string goes on behind its opening quote. -/
inductive StringBody where
  | closed (text : List Char) (length : Nat)
  | unterminated
  | invalidEscape (before : Nat) (c : Char)
  deriving DecidableEq, Repr

/-- Puts a character, written with `width` characters, before what a string stands for. -/
def StringBody.push (c : Char) (width : Nat) : StringBody → StringBody
  | closed text length => closed (c :: text) (length + width)
  | unterminated => unterminated
  | invalidEscape before e => invalidEscape (before + width) e

/-- Reads up to the closing quote. A line feed ends the search for it. -/
def stringBody (mark : Char) : List Char → StringBody
  | [] => .unterminated
  | ['\\'] => .unterminated
  | '\\' :: e :: rest =>
    match escapeValue? e with
    | some v => (stringBody mark rest).push v 2
    | none => .invalidEscape 1 e
  | c :: rest =>
    if c = mark then .closed [] 1
    else if c = '\n' then .unterminated
    else (stringBody mark rest).push c 1

/-- The number that starts with `c`. A point belongs to it only when a digit follows. -/
def numberLexeme (c : Char) (rest : List Char) : LexemeRead :=
  let whole := rest.takeWhile isDigit
  match rest.dropWhile isDigit with
  | '.' :: d :: tail =>
    if isDigit d then
      let fraction := d :: tail.takeWhile isDigit
      ⟨.token .float (String.ofList (c :: whole ++ '.' :: fraction)),
        whole.length + 1 + fraction.length⟩
    else ⟨.token .integer (String.ofList (c :: whole)), whole.length⟩
  | _ => ⟨.token .integer (String.ofList (c :: whole)), whole.length⟩

/-- The word that starts with `c`: a keyword when the whole word is one, else an identifier. -/
def wordLexeme (c : Char) (rest : List Char) : LexemeRead :=
  let more := rest.takeWhile isIdentifierPart
  let word := String.ofList (c :: more)
  let kind := match Keyword.ofText? word with
    | some k => TokenKind.keyword k
    | none => TokenKind.identifier
  ⟨.token kind word, more.length⟩

/-- The string that is opened by `mark` at `p`. -/
def stringLexeme (p : Position) (mark : Char) (rest : List Char) : Except ScanError LexemeRead :=
  match stringBody mark rest with
  | .closed text length => .ok ⟨.token .string (String.ofList text), length⟩
  | .unterminated => .error ⟨.unterminatedString, p⟩
  | .invalidEscape before e => .error ⟨.invalidEscape e, p.after (mark :: rest.take before)⟩

/-- What starts with a slash: only a comment can. -/
def slashLexeme (p : Position) : List Char → Except ScanError LexemeRead
  | '/' :: rest => .ok ⟨.comment, 1 + (rest.takeWhile (· ≠ '\n')).length⟩
  | '*' :: rest =>
    match commentBody? rest with
    | some body => .ok (blockComment rest body)
    | none => .error ⟨.unterminatedComment, p⟩
  | _ => .error ⟨.unexpected '/', p⟩

/-- The equals sign, or the arrow when the next character completes it. -/
def equalsLexeme : List Char → LexemeRead
  | '>' :: _ => ⟨.token (.symbol .arrow) Symbol.arrow.text, 1⟩
  | _ => ⟨.token (.symbol .equals) Symbol.equals.text, 0⟩

/-- The lexeme that starts with `c` at `p` and may go on in `rest`. -/
def readLexeme (p : Position) (c : Char) (rest : List Char) : Except ScanError LexemeRead :=
  if isGap c then .ok ⟨.blank, 0⟩
  else if c = '/' then slashLexeme p rest
  else if c = '=' then .ok (equalsLexeme rest)
  else match Symbol.ofChar? c with
    | some mark => .ok ⟨.token (.symbol mark) mark.text, 0⟩
    | none =>
      if c = '"' ∨ c = '\'' then stringLexeme p c rest
      else if isDigit c then .ok (numberLexeme c rest)
      else if isIdentifierStart c then .ok (wordLexeme c rest)
      else .error ⟨.unexpected c, p⟩

/-! ## The scan -/

/-- The tokens of a text that starts at `p`, with `doc` waiting for the first of them. -/
def scanFrom (p : Position) (doc : Option String) (text : List Char) :
    Except ScanError (List Token) :=
  match text with
  | [] => .ok [Token.endAt p]
  | c :: rest =>
    match readLexeme p c rest with
    | .error e => .error e
    | .ok ⟨lexeme, more⟩ =>
      let next := p.after (c :: rest.take more)
      match lexeme with
      | .blank | .comment => scanFrom next doc (rest.drop more)
      | .doc later => scanFrom next later (rest.drop more)
      | .token kind word => do
        let tokens ← scanFrom next none (rest.drop more)
        return ⟨kind, word, p, doc⟩ :: tokens
termination_by text.length
decreasing_by all_goals simp only [List.length_drop, List.length_cons]; omega

/-- The tokens of a text. The last one is the end of the file, and no other is. -/
def scan (text : String) : Except ScanError (List Token) := scanFrom .start none text.toList

example : (scan "a=>/** x */ 'b\\n'").toOption = some [
    ⟨.identifier, "a", ⟨1, 1⟩, none⟩, ⟨.symbol .arrow, "=>", ⟨1, 2⟩, none⟩,
    ⟨.string, "b\n", ⟨1, 13⟩, some "x"⟩, Token.endAt ⟨1, 18⟩] := by
  decide +kernel

end DeclaredSchema
