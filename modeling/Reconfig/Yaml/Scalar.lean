import Reconfig.Yaml.Cursor
import Reconfig.Text.Scan

/-!
# The texts of YAML scalars

A scalar without quotes and one within quotes may go on over several lines; a single line break
then stands for a space, and a further one for itself. A block of lines keeps its line breaks or
folds them likewise, and its head tells what becomes of the breaks at its end.

* `Gap`: white space between two parts of a scalar, `Gap.chars` what it stands for;
* **`plain?`**, **`quoted?`**, **`block?`**: the text of a scalar, and the place after it.

The readers recurse on a bound on the number of characters that are left.
-/

namespace Reconfig.Yaml

/-! ## Gaps -/

/-- White space between two parts of a scalar. -/
inductive Gap where
  /-- Blanks of one line. -/
  | blanks (chars : List Char)
  /-- Line breaks, the first of them maybe escaped; blanks around them do not count. -/
  | breaks (first? : Option Char) (more : List Char)

namespace Gap

/-- No white space. -/
def none : Gap := .blanks []

/-- There is no white space. -/
def isEmpty : Gap → Bool
  | .blanks chars => chars.isEmpty
  | .breaks .. => false

/-- There is a line break. -/
def isBroken : Gap → Bool
  | .blanks _ => false
  | .breaks .. => true

/-- The gap with a further blank. -/
def blank (c : Char) : Gap → Gap
  | .blanks chars => .blanks (chars ++ [c])
  | g => g

/-- The gap with a further line break. -/
def lineBreak (c : Char) : Gap → Gap
  | .blanks _ => .breaks (some c) []
  | .breaks first? more => .breaks first? (more ++ [c])

/-- The characters that a gap stands for. -/
def chars : Gap → List Char
  | .blanks chars => chars
  | .breaks .none more => more
  | .breaks (some '\n') [] => [' ']
  | .breaks (some '\n') more => more
  | .breaks (some c) more => c :: more

end Gap

/-! ## Scalars without quotes -/

/-- The marks of brackets and of what separates their contents. -/
def isBracketMark (c : Char) : Bool := [',', '[', ']', '{', '}'].contains c

/-- The marks with which no scalar without quotes begins, wherever it stands. -/
def isIndicator (c : Char) : Bool :=
  isBracketMark c || ['#', '&', '*', '!', '|', '>', '\'', '\x22', '%', '@', '\x60'].contains c

/-- A scalar without quotes may begin here. -/
def isPlainStart (inBrackets : Bool) : List Char → Bool
  | [] => false
  | c :: rest =>
    if c = '-' then !atBlank rest
    else if c = '?' ∨ c = ':' then !inBrackets && !atBlank rest
    else !isBlank c && !isBreak c && !isIndicator c

/-- What one character does to a scalar without quotes. -/
inductive PlainStep where
  /-- It belongs to the scalar. -/
  | take
  /-- The scalar has ended. -/
  | stop
  /-- It may not stand there. -/
  | fail

/-- What a character that is not white space does to a scalar without quotes, whose further lines
begin at column `limit` or behind it. -/
def plainStep (inBrackets : Bool) (limit : Nat) (gap : Gap) (c : Cursor) (x : Char)
    (rest : List Char) : PlainStep :=
  if !gap.isEmpty && (x == '#' || c.atMarker || (!inBrackets && c.column < limit)) then .stop
  else if x == ':' && atBlank rest then .stop
  else if inBrackets && x == ':' && rest.head?.any (fun y => y == '?' || isBracketMark y) then
    .fail
  else if inBrackets && isBracketMark x then .stop
  else .take

/-- A scalar without quotes that has been read. -/
structure Plain where
  /-- The text. -/
  text : String
  /-- A line ends behind it. -/
  endsLine : Bool
  /-- The place after it and the white space behind it. -/
  after : Cursor

/-- The scalar without quotes from a place on; `before` holds its characters so far in reverse. -/
def plainFrom (inBrackets : Bool) (limit : Nat) :
    Nat → List Char → Gap → Cursor → Option Plain
  | 0, _, _, _ => none
  | bound + 1, before, gap, c =>
    match c.rest with
    | [] => some ⟨String.ofList before.reverse, gap.isBroken, c⟩
    | x :: rest =>
      if isBreak x then plainFrom inBrackets limit bound before (gap.lineBreak x) c.next
      else if isBlank x then
        if gap.isBroken && x == '\t' && c.column < limit then none
        else plainFrom inBrackets limit bound before (gap.blank x) c.next
      else
        match plainStep inBrackets limit gap c x rest with
        | .stop => some ⟨String.ofList before.reverse, gap.isBroken, c⟩
        | .fail => none
        | .take =>
          plainFrom inBrackets limit bound (x :: (gap.chars.reverse ++ before)) .none c.next

/-- **A scalar without quotes.** -/
def plain? (inBrackets : Bool) (limit : Nat) (c : Cursor) : Option Plain :=
  plainFrom inBrackets limit (c.rest.length + 1) [] .none c

/-! ## Scalars within quotes -/

/-- The characters that letters after a backslash denote. -/
def escapes : List (Char × Char) :=
  [('0', '\x00'), ('a', '\x07'), ('b', '\x08'), ('t', '\t'), ('\t', '\t'), ('n', '\n'),
   ('v', '\x0b'), ('f', '\x0c'), ('r', '\r'), ('e', '\x1b'), (' ', ' '), ('\x22', '\x22'),
   ('/', '/'), ('\\', '\\'), ('N', '\u0085'), ('_', '\u00a0'), ('L', '\u2028'), ('P', '\u2029')]

/-- The number of digits of a code point after a letter. -/
def pointLengths : List (Char × Nat) := [('x', 2), ('u', 4), ('U', 8)]

/-- The character after a backslash, and how many characters denote it. -/
def escaped? : List Char → Option (Char × Nat)
  | [] => none
  | letter :: rest =>
    match escapes.lookup letter, pointLengths.lookup letter with
    | some c, _ => some (c, 1)
    | none, some count =>
      (Text.hex? count rest).bind fun (n, _) => (Text.character? n).map (·, count + 1)
    | none, none => none

/-- What a character within quotes is. -/
inductive QuotedStep where
  /-- The closing quote. -/
  | close
  /-- A character, denoted by so many. -/
  | char (c : Char) (length : Nat)
  /-- An escaped line break. -/
  | joined
  /-- Nothing that may stand there. -/
  | fail

/-- What a character that is not white space is within quotes. -/
def quotedStep (mark x : Char) (rest : List Char) : QuotedStep :=
  if mark = '\'' then
    if x ≠ mark then .char x 1
    else if rest.head? = some mark then .char mark 2
    else .close
  else if x = mark then .close
  else if x ≠ '\\' then .char x 1
  else if rest.head?.any isBreak then .joined
  else
    match escaped? rest with
    | some (c, length) => .char c (length + 1)
    | none => .fail

/-- The scalar within quotes from a place on; `before` holds its characters so far in reverse. -/
def quotedFrom (mark : Char) : Nat → List Char → Gap → Cursor → Option (String × Cursor)
  | 0, _, _, _ => none
  | bound + 1, before, gap, c =>
    if c.atMarker then none
    else
      match c.rest with
      | [] => none
      | x :: rest =>
        if isBreak x then quotedFrom mark bound before (gap.lineBreak x) c.next
        else if isBlank x then quotedFrom mark bound before (gap.blank x) c.next
        else
          let before := gap.chars.reverse ++ before
          match quotedStep mark x rest with
          | .close => some (String.ofList before.reverse, c.next)
          | .char y length => quotedFrom mark bound (y :: before) .none (c.drop length)
          | .joined => quotedFrom mark bound before (.breaks none []) (c.drop 2)
          | .fail => none

/-- **A scalar within quotes**, and the place after it; `c` stands behind the opening quote. -/
def quoted? (mark : Char) (c : Cursor) : Option (String × Cursor) :=
  quotedFrom mark (c.rest.length + 1) [] .none c

/-! ## Blocks of lines -/

/-- What becomes of the line breaks at the end of a block. -/
inductive Chomping where
  /-- None stays. -/
  | strip
  /-- The first one stays. -/
  | clip
  /-- All stay. -/
  | keep

/-- The chomping that a mark in the head of a block denotes. -/
def chomping? : Char → Option Chomping
  | '+' => some .keep
  | '-' => some .strip
  | _ => none

/-- The indentation that a digit in the head of a block denotes. -/
def indentation? (c : Char) : Option Nat := (Numeral.digit? 10 c).filter (0 < ·)

/-- The marks in the head of a block: chomping and further indentation in either order. -/
def blockMarks : List Char → Chomping × Option Nat × Nat
  | a :: b :: _ =>
    match chomping? a, indentation? a, chomping? b, indentation? b with
    | some m, _, _, some n => (m, some n, 2)
    | some m, _, _, none => (m, none, 1)
    | none, some n, some m, _ => (m, some n, 2)
    | none, some n, none, _ => (.clip, some n, 1)
    | none, none, _, _ => (.clip, none, 0)
  | [a] =>
    match chomping? a, indentation? a with
    | some m, _ => (m, none, 1)
    | none, some n => (.clip, some n, 1)
    | none, none => (.clip, none, 0)
  | [] => (.clip, none, 0)

/-- Empty lines and the indentation of the next line: the line breaks, the greatest indentation
met, and the place. No indentation is known yet if `indentation` is zero. -/
def emptyLines? (indentation : Nat) :
    Nat → Nat → List Char → Cursor → Option (List Char × Nat × Cursor)
  | 0, _, _, _ => none
  | bound + 1, greatest, before, c =>
    let inside := indentation == 0 || c.column < indentation
    match c.rest with
    | [] => some (before.reverse, max greatest c.column, c)
    | x :: _ =>
      if inside && x == ' ' then emptyLines? indentation bound greatest before c.next
      else if inside && x == '\t' then none
      else if isBreak x then
        emptyLines? indentation bound (max greatest c.column) (x :: before) c.next
      else some (before.reverse, max greatest c.column, c)

/-- A block so far. -/
structure Block where
  /-- The characters in reverse. -/
  before : List Char
  /-- The break at the end of the last line. -/
  lastBreak : List Char
  /-- The breaks of the empty lines after it. -/
  emptyBreaks : List Char
  /-- The last line began with a blank. -/
  wasBlank : Bool

/-- What the breaks before a line stand for. Folding joins lines that do not begin with a blank. -/
def Block.joint (b : Block) (folded startsBlank : Bool) : List Char :=
  if folded && b.lastBreak == ['\n'] && !b.wasBlank && !startsBlank then
    if b.emptyBreaks.isEmpty then [' '] else b.emptyBreaks
  else b.lastBreak ++ b.emptyBreaks

/-- The lines of a block from a place on. -/
def blockFrom (folded : Bool) (indentation : Nat) : Nat → Block → Cursor → Option (Block × Cursor)
  | 0, _, _ => none
  | bound + 1, b, c =>
    match c.rest with
    | [] => some (b, c)
    | x :: _ =>
      if c.column ≠ indentation then some (b, c)
      else
        let line := c.rest.takeWhile fun y => !isBreak y
        let stop := c.drop line.length
        match emptyLines? indentation (stop.rest.length + 1) 0 [] stop.next with
        | none => none
        | some (breaks, _, after) =>
          blockFrom folded indentation bound
            ⟨line.reverse ++ ((b.joint folded (isBlank x)).reverse ++ b.before),
              stop.rest.take 1, breaks, isBlank x⟩ after

/-- The text of a block after chomping. -/
def Block.text (b : Block) (m : Chomping) : String :=
  let tail :=
    match m with
    | .strip => []
    | .clip => b.lastBreak
    | .keep => b.lastBreak ++ b.emptyBreaks
  String.ofList (b.before.reverse ++ tail)

/-- **A block of lines** below something indented by one less than `limit`, and the place after it;
`c` stands behind the mark that opens the block. -/
def block? (folded : Bool) (limit : Nat) (c : Cursor) : Option (String × Cursor) := do
  let (m, more?, length) := blockMarks c.rest
  let c ← (c.drop length).lineEnd?
  let bound := c.rest.length + 1
  let given := (more?.map fun n => (limit - 1) + n).getD 0
  let (breaks, greatest, c) ← emptyLines? given bound 0 [] c
  let indentation := if given = 0 then max (max greatest limit) 1 else given
  let (b, c) ← blockFrom folded indentation bound ⟨[], [], breaks, false⟩ c
  some (b.text m, c)

end Reconfig.Yaml
