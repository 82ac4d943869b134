import DeclaredSchema.Yaml.Scalar

/-!
# Tokens of a YAML text

A text is cut into tokens of three sorts: marks and scalars that stand in the text, and the starts
and ends of block collections, which follow from the indentation.

A key is recognised late. Where one may start, its place is remembered, and when a colon follows on
the same line and not too far away, the token of the key is put in at that place, together with the
start of a mapping if the key is indented further than what is around it.

A text may be cut up to a fault only. The tokens before the fault are there to be read, but not those
from the first place on where a key may still turn out to be, so that a fault of their order can be
seen before the other.

## Main definitions

* `Yaml.Token` — the tokens
* `Yaml.Scan` — a text in the course of being cut
* `Yaml.Scan.fetch` — the step to the next token
* `Yaml.Stream`, `Yaml.stream` — the tokens of a text, perhaps up to a fault
-/

namespace DeclaredSchema.Yaml

/-- What a directive says. -/
inductive Directive where
  | version (major : Int)
  | handle (handle uri : String)
  | other
  deriving DecidableEq, Repr

/-- The tokens. The handle of a tag is missing when the tag is written out. -/
inductive Token where
  | directive (d : Directive)
  | documentStart
  | documentEnd
  | sequenceStart
  | mappingStart
  | blockEnd
  | flowSequenceStart
  | flowSequenceEnd
  | flowMappingStart
  | flowMappingEnd
  | entry
  | flowEntry
  | key
  | value
  | aliasMark (name : String)
  | anchor (name : String)
  | tag (handle : Option String) (ending : String)
  | scalar (text : CodeText) (plain : Bool)
  | textEnd
  deriving DecidableEq, Repr

/-- A place where a key may have started: how many tokens come before it, and whether there has to
be a key. -/
structure KeyPlace where
  tokens : Nat
  required : Bool
  index : Nat
  line : Nat
  column : Nat

/-- A text in the course of being cut. Indentations are stacked, the innermost first; in the flow
context, which has a depth, they do not count. There is at most one place for a key at each depth.
The tokens are counted, and the latest comes first. -/
structure Scan where
  cursor : Cursor
  depth : Nat
  indents : List Int
  keyAllowed : Bool
  keys : List (Nat × KeyPlace)
  latest : List Token
  count : Nat

/-- The most characters that a key on one line may have. -/
def keyLimit : Nat := 1024

namespace Scan

def start (text : List Char) : Scan := ⟨.start text, 0, [], true, [], [], 0⟩

/-- The indentation of the innermost block collection. -/
def indent (s : Scan) : Int := s.indents.headD (-1)

def inFlow (s : Scan) : Bool := 0 < s.depth

/-- The tokens in order. -/
def tokens (s : Scan) : List Token := s.latest.reverse

/-- The scan with a further token. -/
def push (s : Scan) (t : Token) : Scan := { s with latest := t :: s.latest, count := s.count + 1 }

/-- The scan with a further token behind the first `place` ones. -/
def insertAt (s : Scan) (place : Nat) (t : Token) : Scan :=
  { s with latest := s.latest.insertIdx (s.count - place) t, count := s.count + 1 }

/-- The scan with a further token, at another place of the text. -/
def emit (s : Scan) (t : Token) (c : Cursor) : Scan := { s.push t with cursor := c }

/-! ## Gaps -/

/-- Past spaces, comments and line breaks; a line break outside of flow collections allows a key. -/
def skipGap (s : Scan) : Scan :=
  match _h : s.cursor.skipSpaces.skipComment.lineBreak? with
  | some (_, after) => skipGap { s with cursor := after, keyAllowed := s.keyAllowed || !s.inFlow }
  | none => { s with cursor := s.cursor.skipSpaces.skipComment }
termination_by s.cursor.rest.length
decreasing_by
  exact Nat.lt_of_lt_of_le (Cursor.length_lt_of_lineBreak? _h)
    (Nat.le_trans (Cursor.length_skipComment_le _) (Cursor.length_skip_le _ _))

/-- To the next token. A byte order mark at the start of the text is passed over. -/
def toNext (s : Scan) : Scan :=
  let c := s.cursor
  let c := if c.index = 0 && c.sees '\ufeff' then c.advance else c
  skipGap { s with cursor := c }

/-! ## Places of keys -/

/-- Whether a key that starts at `k` may still end here. -/
def mayEnd (c : Cursor) (k : KeyPlace) : Bool := k.line = c.line && c.index - k.index ≤ keyLimit

/-- Forgets the places of keys that can end no more. -/
def dropStale (s : Scan) : Except Fault Scan :=
  if s.keys.any fun (_, k) => k.required && !mayEnd s.cursor k then .error .malformed
  else .ok { s with keys := s.keys.filter fun (_, k) => mayEnd s.cursor k }

/-- Forgets the place of a key at this depth. -/
def dropKey (s : Scan) : Except Fault Scan :=
  match s.keys.lookup s.depth with
  | none => .ok s
  | some k =>
    if k.required then .error .malformed
    else .ok { s with keys := s.keys.filter fun (d, _) => d ≠ s.depth }

/-- Remembers this place as that of a key, if one is allowed here. -/
def saveKey (s : Scan) : Except Fault Scan :=
  if !s.keyAllowed then .ok s
  else do
    let s ← s.dropKey
    let c := s.cursor
    let required := !s.inFlow && s.indent = c.column
    let k : KeyPlace := ⟨s.count, required, c.index, c.line, c.column⟩
    return { s with keys := (s.depth, k) :: s.keys }

/-! ## Indentation -/

/-- Ends the block collections that are indented further than `column`. -/
def unwind (s : Scan) (column : Int) : Scan :=
  if s.inFlow then s
  else
    let ended := s.indents.takeWhile (column < ·)
    { s with
      indents := s.indents.dropWhile (column < ·)
      latest := ended.map (fun _ => .blockEnd) ++ s.latest
      count := s.count + ended.length }

/-- Starts a block collection if `column` is indented further than what is around it; its token
comes after `place` tokens. -/
def openAt (s : Scan) (column place : Nat) (t : Token) : Scan :=
  if s.indent < column then
    { s.insertAt place t with indents := column :: s.indents }
  else s

/-! ## Marks -/

/-- A start or an end of a document, or a directive, ends everything before it. -/
def closeAll (s : Scan) : Except Fault Scan := do
  let s ← (s.unwind (-1)).dropKey
  return { s with keyAllowed := false }

def fetchDocumentMark (s : Scan) (t : Token) : Except Fault Scan := do
  let s ← s.closeAll
  return s.emit t (s.cursor.advanceBy 3)

def fetchFlowStart (s : Scan) (t : Token) : Except Fault Scan := do
  let s ← s.saveKey
  return { s.emit t s.cursor.advance with depth := s.depth + 1, keyAllowed := true }

def fetchFlowEnd (s : Scan) (t : Token) : Except Fault Scan := do
  if !s.inFlow then throw .malformed
  let s ← s.dropKey
  return { s.emit t s.cursor.advance with depth := s.depth - 1, keyAllowed := false }

def fetchFlowEntry (s : Scan) : Except Fault Scan := do
  let s ← { s with keyAllowed := true }.dropKey
  return s.emit .flowEntry s.cursor.advance

/-- The scan with a block collection started for a mark at this place, where a key has to be
allowed. -/
def openHere (s : Scan) (t : Token) : Except Fault Scan :=
  if s.inFlow then .ok s
  else if !s.keyAllowed then .error .malformed
  else .ok (s.openAt s.cursor.column s.count t)

def fetchEntry (s : Scan) : Except Fault Scan := do
  let s ← s.openHere .sequenceStart
  let s ← { s with keyAllowed := true }.dropKey
  return s.emit .entry s.cursor.advance

def fetchKey (s : Scan) : Except Fault Scan := do
  let s ← s.openHere .mappingStart
  let s ← { s with keyAllowed := !s.inFlow }.dropKey
  return s.emit .key s.cursor.advance

/-- A colon. It makes a key of what started at the remembered place, if there is one. -/
def fetchValue (s : Scan) : Except Fault Scan := do
  match s.keys.lookup s.depth with
  | some k =>
    let s := { s.insertAt k.tokens .key with
      keys := s.keys.filter fun (d, _) => d ≠ s.depth
      keyAllowed := false }
    let s := if s.inFlow then s else s.openAt k.column k.tokens .mappingStart
    return s.emit .value s.cursor.advance
  | none =>
    let s ← s.openHere .mappingStart
    let s ← { s with keyAllowed := !s.inFlow }.dropKey
    return s.emit .value s.cursor.advance

/-! ## Names and tags -/

/-- The characters of the name of an anchor, a handle or a directive. -/
def isNameChar (c : Char) : Bool := c.isAlphanum || c = '-' || c = '_'

/-- Characters that can follow the name of an anchor. -/
def endsName : Option Char → Bool
  | none => true
  | some c => isGap c || ['?', ':', ',', ']', '\x7d', '%', '@', '\x60'].contains c

/-- A name of an anchor or an alias, with the place behind it. -/
def anchorName (c : Cursor) : Except Fault (String × Cursor) :=
  let name := c.advance.run isNameChar
  let after := c.advance.skip isNameChar
  if name.isEmpty || !endsName after.next then .error .malformed
  else .ok (String.ofList name, after)

/-- The characters that a tag may contain. -/
def isUriChar (c : Char) : Bool := c.isAlphanum || "-;/?:@&=+$,_.!~*'()[]%".toList.contains c

/-- A text with its percent signs, each behind two hexadecimal digits of a byte, decoded. -/
def decodePercents : Nat → List Char → ByteArray → Option ByteArray
  | 0, _, acc => some acc
  | _, [], acc => some acc
  | fuel + 1, '%' :: rest, acc =>
    match Scalar.hexNumber? 2 rest with
    | some byte => decodePercents fuel (rest.drop 2) (acc.push byte.toUInt8)
    | none => none
  | fuel + 1, c :: rest, acc => decodePercents fuel rest (acc ++ c.toString.toUTF8)

/-- The part of a tag that may be percent-encoded, with the place behind it. -/
def uri (c : Cursor) : Except Fault (String × Cursor) :=
  let text := c.run isUriChar
  if text.isEmpty then .error .malformed
  else
    match (decodePercents text.length text ByteArray.empty).bind String.fromUTF8? with
    | some decoded => .ok (decoded, c.advanceBy text.length)
    | none => .error .malformed

/-- The handle of a tag, from one exclamation mark to the next. A handle before a space is a single
mark. -/
def handle (c : Cursor) : Except Fault (String × Cursor) :=
  if !c.sees '!' then .error .malformed
  else if c.advance.sees ' ' then .ok ("!", c.advance)
  else
    let name := c.advance.run isNameChar
    let after := c.advance.skip isNameChar
    if after.sees '!' then .ok (String.ofList ('!' :: name ++ ['!']), after.advance)
    else .error .malformed

/-- Whether a tag that starts here has a handle of its own. -/
def hasHandle (c : Cursor) : Bool :=
  (c.advance.run fun x => x ≠ ' ' && !isBreak x).contains '!'

/-- A tag, with the place behind it. -/
def tagAt (c : Cursor) : Except Fault (Token × Cursor) := do
  let (t, after) ←
    if c.peek 1 = some '<' then do
      let (ending, after) ← uri (c.advanceBy 2)
      if !after.sees '>' then throw .malformed
      pure (Token.tag none ending, after.advance)
    else if endsWord (c.peek 1) then pure (Token.tag none "!", c.advance)
    else do
      let (own, after) ← if hasHandle c then handle c else pure ("!", c.advance)
      let (ending, after) ← uri after
      pure (Token.tag (some own) ending, after)
  if endsItem after.next then return (t, after) else throw .malformed

/-- One of the two numbers of a version. -/
def versionNumber (c : Cursor) : Except Fault (Int × Cursor) := do
  let digits := c.run Char.isDigit
  if digits.isEmpty then throw .malformed
  let n ← (readInteger (String.ofList digits)).mapError .numeral
  return (n, c.advanceBy digits.length)

/-- What a directive of the given name says. -/
def directiveValue (name : String) (c : Cursor) : Except Fault (Directive × Cursor) := do
  if name = "YAML" then
    let (major, c) ← versionNumber c.skipSpaces
    if !c.sees '.' then throw .malformed
    let (_, c) ← versionNumber c.advance
    if !endsItem c.next then throw .malformed
    return (.version major, c)
  else if name = "TAG" then
    let (own, c) ← handle c.skipSpaces
    if !c.sees ' ' then throw .malformed
    let (target, c) ← uri c.skipSpaces
    if !endsItem c.next then throw .malformed
    return (.handle own target, c)
  else return (.other, c.skip fun x => !isBreak x)

def fetchDirective (s : Scan) : Except Fault Scan := do
  let s ← s.closeAll
  let c := s.cursor.advance
  let name := c.run isNameChar
  let c := c.skip isNameChar
  if name.isEmpty || !endsItem c.next then throw .malformed
  let (d, c) ← directiveValue (String.ofList name) c
  return s.emit (.directive d) (← Scalar.endOfLine c)

/-! ## What can be a key -/

/-- A token that can be a key, or be a part of one. -/
def fetchWord (s : Scan) (read : Cursor → Except Fault (Token × Cursor)) : Except Fault Scan := do
  let s ← s.saveKey
  let (t, c) ← read s.cursor
  return { s.emit t c with keyAllowed := false }

def fetchPlain (s : Scan) : Except Fault Scan := do
  let s ← s.saveKey
  let r := Scalar.plain s.inFlow s.indent s.cursor
  return { s.emit (.scalar (.ofChars r.text) true) r.cursor with keyAllowed := r.keyMayFollow }

def fetchBlock (s : Scan) (folded : Bool) : Except Fault Scan := do
  let s ← { s with keyAllowed := true }.dropKey
  let (text, c) ← Scalar.block folded s.indent s.cursor
  return s.emit (.scalar (.ofChars text) false) c

/-- A quoted scalar as a token. -/
def quotedAt (mark : Char) (c : Cursor) : Except Fault (Token × Cursor) := do
  let (text, c) ← Scalar.quoted mark c
  return (.scalar text false, c)

def anchorAt (make : String → Token) (c : Cursor) : Except Fault (Token × Cursor) := do
  let (name, c) ← anchorName c
  return (make name, c)

/-! ## Single steps -/

/-- Characters with which no plain scalar starts. -/
def isIndicator (c : Char) : Bool := "-?:,[]\x7b\x7d#&*!|>'\"%@\x60".toList.contains c

/-- Whether a plain scalar can start with this character. Three of the indicators can start one when
no gap follows them, two of those only outside of flow collections. -/
def startsPlain (s : Scan) (x : Char) : Bool :=
  (!isGap x && !isIndicator x) ||
    (!endsWord (s.cursor.peek 1) && (x = '-' || (!s.inFlow && (x = '?' || x = ':'))))

/-- Whether a mark that needs a gap behind it stands here; in the flow context it needs none. -/
def seesMark (s : Scan) : Bool := s.inFlow || endsWord (s.cursor.peek 1)

/-- The token that starts with the character `x`, which is the next one. -/
def fetchFrom (s : Scan) (x : Char) : Except Fault Scan :=
  let c := s.cursor
  if x = '%' && c.column = 0 then s.fetchDirective
  else if c.column = 0 && c.seesTriple '-' then s.fetchDocumentMark .documentStart
  else if c.column = 0 && c.seesTriple '.' then s.fetchDocumentMark .documentEnd
  else if x = '[' then s.fetchFlowStart .flowSequenceStart
  else if x = '\x7b' then s.fetchFlowStart .flowMappingStart
  else if x = ']' then s.fetchFlowEnd .flowSequenceEnd
  else if x = '\x7d' then s.fetchFlowEnd .flowMappingEnd
  else if x = ',' then s.fetchFlowEntry
  else if x = '-' && endsWord (c.peek 1) then s.fetchEntry
  else if x = '?' && s.seesMark then s.fetchKey
  else if x = ':' && s.seesMark then s.fetchValue
  else if x = '*' then s.fetchWord (anchorAt .aliasMark)
  else if x = '&' then s.fetchWord (anchorAt .anchor)
  else if x = '!' then s.fetchWord tagAt
  else if (x = '|' || x = '>') && !s.inFlow then s.fetchBlock (x = '>')
  else if x = '\'' || x = '"' then s.fetchWord (quotedAt x)
  else if s.startsPlain x then s.fetchPlain
  else .error .malformed

/-- The scan with everything ended at the end of the text. -/
def finish (s : Scan) : Except Fault Scan := do
  return (← (s.unwind (-1)).dropKey).push .textEnd

/-- Whether the scan has come to the end of the text, and the scan with at least one token more, apart
from those that end collections. -/
def fetch (s : Scan) : Except Fault (Bool × Scan) := do
  let s ← s.toNext.dropStale
  let s := s.unwind s.cursor.column
  match s.cursor.next with
  | none => return (true, ← s.finish)
  | some x => return (false, ← s.fetchFrom x)

/-- The tokens before the first place where a key may still turn out to be. -/
def settled (s : Scan) : List Token :=
  let pending := s.keys.filter fun (_, k) => mayEnd s.cursor k
  s.tokens.take (pending.foldl (fun n (_, k) => min n k.tokens) s.count)

end Scan

/-- The tokens of a text that can be read. When a fault follows them, they need not come to an
end. -/
structure Stream where
  tokens : List Token
  fault : Option Fault

namespace Stream

/-- A stream with nothing but a fault. -/
def ofFault (f : Fault) : Stream := ⟨[], some f⟩

/-- The tokens from a scan on. Every step but the last reads at least one character. -/
def ofScan : Nat → Scan → Stream
  | 0, _ => ofFault .malformed
  | fuel + 1, s =>
    match s.fetch with
    | .error f => ⟨s.settled, some f⟩
    | .ok (true, s) => ⟨s.tokens, none⟩
    | .ok (false, s) => ofScan fuel s

end Stream

/-- Whether a character may stand in a text at all. -/
def isAllowed (c : Char) : Bool :=
  c = '\t' || c = '\n' || c = '\r' || c = '\x85' ||
    (0x20 ≤ c.toNat && c.toNat ≤ 0x7E) || (0xA0 ≤ c.toNat && c.toNat ≤ 0xFFFD) ||
    0x10000 ≤ c.toNat

/-- The tokens of a text. -/
def stream (text : String) : Stream :=
  let cs := text.toList
  if cs.all isAllowed then .ofScan (cs.length + 1) (.start cs) else .ofFault .malformed

end DeclaredSchema.Yaml
