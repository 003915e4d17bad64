import Reconfig.Yaml.Scalar
import Reconfig.Yaml.Tag

/-!
# The tokens of a YAML text

The marks and the scalars of a text in their order. Where indentation opens or closes a sequence
or a mapping, a token says so, and a token stands before every key.

A key without a question mark shows only by the colon behind it. So the lexer remembers, for the
text outside brackets and for each open bracket, what may yet turn out to be a key, and puts the
tokens that belong before it in their place later. A key lies on one line, and its colon is at
most 1024 bytes behind its beginning.

* `Token`; `PossibleKey`, `Lexer`: the state of reading;
* `Lexer.openBlock`, `Lexer.closeBlocks`: indentation; `Lexer.saveKey?`, `Lexer.dropKey?`: keys;
* `Lexer.fetch?`: the next token;
* **`Token.ofText?`**: the tokens of a text.
-/

namespace Reconfig.Yaml

/-- A token of a text. -/
inductive Token where
  /-- A directive. -/
  | directive (d : Directive)
  /-- The mark that begins a document. -/
  | documentStart
  /-- The mark that ends a document. -/
  | documentEnd
  /-- Indentation opens a sequence. -/
  | blockSequenceStart
  /-- Indentation opens a mapping. -/
  | blockMappingStart
  /-- Indentation closes a sequence or a mapping. -/
  | blockEnd
  /-- A bracket opens a sequence. -/
  | flowSequenceStart
  /-- A bracket closes a sequence. -/
  | flowSequenceEnd
  /-- A bracket opens a mapping. -/
  | flowMappingStart
  /-- A bracket closes a mapping. -/
  | flowMappingEnd
  /-- The dash before an item. -/
  | blockEntry
  /-- The comma within brackets. -/
  | flowEntry
  /-- A key follows. -/
  | key
  /-- The colon before a value. -/
  | value
  /-- A node under that name is repeated. -/
  | alias (name : String)
  /-- The next node has a name. -/
  | anchor (name : String)
  /-- The next node has a tag. -/
  | tag (t : Tag)
  /-- A scalar, and whether it is written without quotes on lines that are not a block. -/
  | scalar (plain : Bool) (text : String)

/-- The beginning of what may turn out to be a key. -/
structure PossibleKey where
  /-- Nothing but a key may stand there. -/
  required : Bool
  /-- The number of tokens before it. -/
  count : Nat
  /-- The line. -/
  line : Nat
  /-- The column. -/
  column : Nat
  /-- The number of bytes before it. -/
  index : Nat

/-- The greatest distance in bytes from the beginning of a key to its colon. -/
def maxKeyLength : Nat := 1024

/-- No colon at the place or behind it makes this a key. -/
def PossibleKey.isPast (k : PossibleKey) (c : Cursor) : Bool :=
  k.line < c.line || k.index + maxKeyLength < c.index

/-- The state of reading. -/
structure Lexer where
  /-- The place. -/
  place : Cursor
  /-- The tokens so far, the latest first. -/
  before : List Token
  /-- Their number. -/
  count : Nat
  /-- The column from which on text belongs to the innermost block; zero outside of all. -/
  limit : Nat
  /-- The same for the blocks around it, from the inside. -/
  outer : List Nat
  /-- What may be a key within the innermost brackets. -/
  key? : Option PossibleKey
  /-- The same for the brackets around them, from the inside, and for the text outside. -/
  outerKeys : List (Option PossibleKey)
  /-- A key may begin at the place. -/
  keyAllowed : Bool

namespace Lexer

/-- The beginning of a text. -/
def start (s : List Char) : Lexer := ⟨.start s, [], 0, 0, [], none, [], true⟩

/-- The place is within brackets. -/
def inBrackets (l : Lexer) : Bool := !l.outerKeys.isEmpty

/-- Add a token and go on at a place. -/
def push (l : Lexer) (t : Token) (after : Cursor) : Lexer :=
  { l with before := t :: l.before, count := l.count + 1, place := after }

/-- Add a token that is one character. -/
def pushMark (l : Lexer) (t : Token) : Lexer := l.push t l.place.next

/-- Add a token behind the first `n` ones. -/
def insert (l : Lexer) (n : Nat) (t : Token) : Lexer :=
  let (later, earlier) := l.before.splitAt (l.count - n)
  { l with before := later ++ t :: earlier, count := l.count + 1 }

/-! ## Indentation -/

/-- A sequence or a mapping begins at a column, behind the first `n` tokens. Outside brackets it is
a block of its own if the column lies within the innermost one. -/
def openBlock (l : Lexer) (column n : Nat) (t : Token) : Lexer :=
  if l.inBrackets || column < l.limit then l
  else { l.insert n t with limit := column + 1, outer := l.limit :: l.outer }

/-- The number of blocks to close until the innermost one has at most a given limit, with the
limits that are left. -/
def closing (target : Nat) : Nat → List Nat → Nat × Nat × List Nat
  | limit, [] => (0, limit, [])
  | limit, next :: outer =>
    if target < limit then
      let (n, left) := closing target next outer
      (n + 1, left)
    else (0, limit, next :: outer)

/-- Close blocks until the innermost one has at most a given limit. Within brackets none ends. -/
def closeBlocks (l : Lexer) (target : Nat) : Lexer :=
  if l.inBrackets then l
  else
    let (n, limit, outer) := closing target l.limit l.outer
    { l with
      before := List.replicate n .blockEnd ++ l.before
      count := l.count + n
      limit := limit
      outer := outer }

/-! ## Keys -/

/-- What may be a key within the innermost brackets is none; that fails if it has to be one. -/
def dropKey? (l : Lexer) : Option Lexer :=
  if l.key?.any (·.required) then none else some { l with key? := none }

/-- What begins at the place may be a key, if keys are allowed. At the column of a block it has to
be one. -/
def saveKey? (l : Lexer) : Option Lexer :=
  if l.keyAllowed then
    l.dropKey?.map fun l =>
      { l with
        key? := some
          { required := !l.inBrackets && l.limit == l.place.column + 1
            count := l.count
            line := l.place.line
            column := l.place.column
            index := l.place.index } }
  else some l

/-- What may be a key at a place; fails if it has to be one and cannot. -/
def keep? (c : Cursor) : Option PossibleKey → Option (Option PossibleKey)
  | none => some none
  | some k => if !k.isPast c then some (some k) else if k.required then none else some none

/-- Forget what can no longer be a key. -/
def expireKeys? (l : Lexer) : Option Lexer := do
  let key? ← keep? l.place l.key?
  let outerKeys ← l.outerKeys.mapM (keep? l.place)
  some { l with key? := key?, outerKeys := outerKeys }

/-- Keys may begin next, or not. -/
def allowKey (l : Lexer) (allowed : Bool) : Lexer := { l with keyAllowed := allowed }

/-! ## Tokens -/

/-- A mark between documents. It closes all blocks. -/
def marker? (l : Lexer) (t : Token) : Option Lexer :=
  (l.closeBlocks 0).dropKey?.map fun l => (l.push t (l.place.drop 3)).allowKey false

/-- A directive. -/
def directive? (l : Lexer) : Option Lexer :=
  (l.closeBlocks 0).dropKey?.bind fun l =>
    (Directive.read? l.place).map fun (d, after) => (l.push (.directive d) after).allowKey false

/-- An opening bracket. What it opens may be a key as a whole. -/
def openBracket? (l : Lexer) (t : Token) : Option Lexer :=
  l.saveKey?.map fun l =>
    { (l.pushMark t).allowKey true with key? := none, outerKeys := l.key? :: l.outerKeys }

/-- A closing bracket. -/
def closeBracket? (l : Lexer) (t : Token) : Option Lexer :=
  l.dropKey?.map fun l =>
    let l := (l.pushMark t).allowKey false
    match l.outerKeys with
    | [] => l
    | k :: outer => { l with key? := k, outerKeys := outer }

/-- A comma within brackets. -/
def flowEntry? (l : Lexer) : Option Lexer :=
  l.dropKey?.map fun l => (l.pushMark .flowEntry).allowKey true

/-- The dash before an item or the question mark before a key. Outside brackets it stands only
where a key may begin, and opens a block. -/
def blockMark? (l : Lexer) (blockStart mark : Token) (thenAllowed : Bool) : Option Lexer :=
  if l.inBrackets || l.keyAllowed then
    (l.openBlock l.place.column l.count blockStart).dropKey?.map fun l =>
      (l.pushMark mark).allowKey thenAllowed
  else none

/-- The colon before a value. It turns what may be a key into one, or follows a key that is marked
as such. -/
def value? (l : Lexer) : Option Lexer :=
  match l.key? with
  | some k =>
    let l := (l.insert k.count .key).openBlock k.column k.count .blockMappingStart
    some ({ l with key? := none }.pushMark .value |>.allowKey false)
  | none =>
    if l.inBrackets then some ((l.pushMark .value).allowKey false)
    else if l.keyAllowed then
      let l := l.openBlock l.place.column l.count .blockMappingStart
      some ((l.pushMark .value).allowKey true)
    else none

/-- A token that may begin a key, with the place after it. -/
def content? (l : Lexer) (read : Cursor → Option (Token × Cursor)) : Option Lexer :=
  l.saveKey?.bind fun l =>
    (read l.place).map fun (t, after) => (l.push t after).allowKey false

/-- A block of lines. It is no key, and one may follow it. -/
def block? (l : Lexer) (folded : Bool) : Option Lexer :=
  l.dropKey?.bind fun l =>
    (Yaml.block? folded l.limit l.place.next).map fun (text, after) =>
      (l.push (.scalar false text) after).allowKey true

/-- A scalar without quotes. A key may follow on the next line. -/
def plain? (l : Lexer) : Option Lexer :=
  l.saveKey?.bind fun l =>
    (Yaml.plain? l.inBrackets l.limit l.place).map fun p =>
      (l.push (.scalar true p.text) p.after).allowKey p.endsLine

/-- A scalar within quotes. -/
def quoted? (l : Lexer) (mark : Char) : Option Lexer :=
  l.content? fun c =>
    (Yaml.quoted? mark c.next).map fun (text, after) => (.scalar false text, after)

/-- The token at a character of the text. -/
def fetch? (l : Lexer) (x : Char) (rest : List Char) : Option Lexer :=
  let isMark := l.inBrackets || atBlank rest
  if x = '%' ∧ l.place.column = 0 then l.directive?
  else if l.place.atStartMarker then l.marker? .documentStart
  else if l.place.atEndMarker then l.marker? .documentEnd
  else if x = '[' then l.openBracket? .flowSequenceStart
  else if x = '{' then l.openBracket? .flowMappingStart
  else if x = ']' then l.closeBracket? .flowSequenceEnd
  else if x = '}' then l.closeBracket? .flowMappingEnd
  else if x = ',' then l.flowEntry?
  else if x = '-' ∧ atBlank rest = true then l.blockMark? .blockSequenceStart .blockEntry true
  else if x = '?' ∧ isMark = true then l.blockMark? .blockMappingStart .key !l.inBrackets
  else if x = ':' ∧ isMark = true then l.value?
  else if x = '*' then l.content? fun c => (name? c.next).map fun (n, after) => (.alias n, after)
  else if x = '&' then l.content? fun c => (name? c.next).map fun (n, after) => (.anchor n, after)
  else if x = '!' then
    l.content? fun c => (Tag.read? l.inBrackets c).map fun (t, after) => (.tag t, after)
  else if (x = '|' ∨ x = '>') ∧ l.inBrackets = false then l.block? (x == '>')
  else if x = '\'' ∨ x = '\x22' then l.quoted? x
  else if isPlainStart l.inBrackets (x :: rest) then l.plain?
  else none

/-- The state at the next content. -/
def skip (l : Lexer) : Lexer :=
  let (keyAllowed, place) := l.place.skip l.inBrackets l.keyAllowed
  { l with keyAllowed := keyAllowed, place := place }

/-- The tokens from a state on, for a bounded number of steps. -/
def run? : Nat → Lexer → Option (List Token)
  | 0, _ => none
  | bound + 1, l =>
    match l.skip.expireKeys? with
    | none => none
    | some l =>
      match l.place.rest with
      | [] => (l.closeBlocks 0).dropKey?.map fun l => l.before.reverse
      | x :: rest =>
        match (l.closeBlocks (l.place.column + 1)).fetch? x rest with
        | none => none
        | some l => run? bound l

end Lexer

/-- **The tokens of a text.** Every step takes a character. -/
def Token.ofText? (text : String) : Option (List Token) :=
  if text.toList.all isAllowed then
    let s := normalised text.toList
    Lexer.run? (s.length + 1) (.start s)
  else none

end Reconfig.Yaml
