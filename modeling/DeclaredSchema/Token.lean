/-!
# Tokens of a declaration file

A declaration file is read as a sequence of tokens, each with the place where it starts and the
documentation comment that stands before it. The sequence ends with one token that stands for the
end of the file.

## Main definitions

* `Position` — a line and a column, both counted from one
* `Keyword`, `Symbol`, `TokenKind` — what a token can be
* `TokenKind.label` — how messages name a kind of token
* `Token` — a token
-/

namespace DeclaredSchema

/-- A place in a text: line and column, both counted from one. -/
structure Position where
  line : Nat
  column : Nat
  deriving DecidableEq, Repr, Inhabited

namespace Position

/-- The first place of a text. -/
def start : Position := ⟨1, 1⟩

/-- The place behind `c`. Only a line feed starts a new line. -/
def advance (p : Position) (c : Char) : Position :=
  if c = '\n' then ⟨p.line + 1, 1⟩ else ⟨p.line, p.column + 1⟩

/-- The place behind a piece of text. -/
def after (p : Position) (text : List Char) : Position := text.foldl advance p

@[simp] theorem after_nil (p : Position) : p.after [] = p := rfl

@[simp] theorem after_cons (p : Position) (c : Char) (text : List Char) :
    p.after (c :: text) = (p.advance c).after text := rfl

@[simp] theorem after_append (p : Position) (a b : List Char) :
    p.after (a ++ b) = (p.after a).after b := by
  simp [after]

/-- A place as the start of a message. -/
def lead (p : Position) : String := s!"Line {p.line}, column {p.column}: "

end Position

/-- The words with a meaning of their own. All of them may still name a member. -/
inductive Keyword where
  | interfaceWord | typeWord | enumWord | exportWord | declareWord | extendsWord | importWord
  | fromWord | readonlyWord | constWord | trueWord | falseWord | nullWord | undefinedWord
  deriving DecidableEq, Repr

namespace Keyword

def text : Keyword → String
  | interfaceWord => "interface"
  | typeWord => "type"
  | enumWord => "enum"
  | exportWord => "export"
  | declareWord => "declare"
  | extendsWord => "extends"
  | importWord => "import"
  | fromWord => "from"
  | readonlyWord => "readonly"
  | constWord => "const"
  | trueWord => "true"
  | falseWord => "false"
  | nullWord => "null"
  | undefinedWord => "undefined"

def all : List Keyword :=
  [interfaceWord, typeWord, enumWord, exportWord, declareWord, extendsWord, importWord, fromWord,
    readonlyWord, constWord, trueWord, falseWord, nullWord, undefinedWord]

/-- The keyword that a word is. -/
def ofText? (word : String) : Option Keyword := all.find? fun k => k.text = word

theorem ofText?_text (k : Keyword) : ofText? k.text = some k := by
  cases k <;> decide +kernel

theorem text_of_ofText? {word : String} {k : Keyword} (h : ofText? word = some k) :
    k.text = word := by
  simpa using List.find?_some h

end Keyword

/-- Marks that stand for themselves. -/
inductive Symbol where
  | braceOpen | braceClose | parenOpen | parenClose | bracketOpen | bracketClose | angleOpen
  | angleClose | comma | semicolon | colon | question | pipe | ampersand | equals | dot | star
  | minus | arrow
  deriving DecidableEq, Repr

namespace Symbol

def text : Symbol → String
  | braceOpen => "\x7b"
  | braceClose => "\x7d"
  | parenOpen => "("
  | parenClose => ")"
  | bracketOpen => "["
  | bracketClose => "]"
  | angleOpen => "<"
  | angleClose => ">"
  | comma => ","
  | semicolon => ";"
  | colon => ":"
  | question => "?"
  | pipe => "|"
  | ampersand => "&"
  | equals => "="
  | dot => "."
  | star => "*"
  | minus => "-"
  | arrow => "=>"

/-- The symbol that a single character is, the equals sign and the arrow apart: these two start
with the same character. -/
def ofChar? : Char → Option Symbol
  | '\x7b' => some braceOpen
  | '\x7d' => some braceClose
  | '(' => some parenOpen
  | ')' => some parenClose
  | '[' => some bracketOpen
  | ']' => some bracketClose
  | '<' => some angleOpen
  | '>' => some angleClose
  | ',' => some comma
  | ';' => some semicolon
  | ':' => some colon
  | '?' => some question
  | '|' => some pipe
  | '&' => some ampersand
  | '.' => some dot
  | '*' => some star
  | '-' => some minus
  | _ => none

end Symbol

/-- What a token can be. -/
inductive TokenKind where
  | keyword (word : Keyword)
  | symbol (mark : Symbol)
  | string
  | integer
  | float
  | identifier
  | endOfFile
  deriving DecidableEq, Repr

namespace TokenKind

/-- How messages name a kind: by its text when it has only one, else by a word in capitals. -/
def label : TokenKind → String
  | keyword word => word.text
  | symbol mark => mark.text
  | string => "STRING"
  | integer => "INTEGER"
  | float => "FLOAT"
  | identifier => "IDENTIFIER"
  | endOfFile => "EOF"

/-- Whether a token of this kind may name a member or a parameter. -/
def isName : TokenKind → Bool
  | keyword _ | identifier => true
  | _ => false

end TokenKind

/-- A token: what it is, its text (for a string, what it stands for), where it starts, and the
documentation before it. -/
structure Token where
  kind : TokenKind
  text : String
  position : Position
  doc : Option String
  deriving DecidableEq, Repr

/-- The end of a file that ends at `p`. A comment before it documents nothing. -/
def Token.endAt (p : Position) : Token := ⟨.endOfFile, "", p, none⟩

instance : Inhabited Token := ⟨Token.endAt .start⟩

end DeclaredSchema
