import Reconfig.Pattern.Basic
import Reconfig.Text.Letter
import Reconfig.Text.Scan

/-!
# Reading patterns

A pattern is written as alternatives between bars, each a row of pieces. A piece is a character, a
set of characters in square brackets, an anchor or a group in parentheses, maybe with the number of
its repetitions behind it. The letters `d`, `w` and `s` behind a backslash stand for sets, within
brackets, too.

* `spelledOut`: a text with those sets spelled out;
* `Escape`, `escape?`: what stands behind a backslash;
* `set?`, `items?`: sets in brackets; `count?`: numbers of repetitions;
* `alternatives?`, `row?`, `piece?`, `atom?`, `group?`: patterns;
* **`Pattern.read?`**.

The readers recurse on a bound on the number of calls. Every fourth call in a row has taken a
character, so five times the length of the text is enough.
-/

namespace Reconfig.Pattern

/-! ## Letters that stand for sets -/

/-- The sets that letters behind a backslash stand for. -/
def spelled : List (Char × String) :=
  [('d', "[0-9]"), ('D', "[^0-9]"), ('w', "[A-Za-z0-9_]"), ('W', "[^A-Za-z0-9_]"),
    ('s', "[ \t\n\r\x0b\x0c\u2003\ufeff\u2029\u00a0]"),
    ('S', "[^ \t\n\r\x0b\x0c\u2003\ufeff\u2029\u00a0]")]

/-- A text with the control characters that `\c` and a letter denote. -/
def withControls : List Char → List Char
  | '\\' :: 'c' :: letter :: rest =>
    if letter.isAlpha then Char.ofNat (letter.toUpper.toNat - 64) :: withControls rest
    else '\\' :: 'c' :: withControls (letter :: rest)
  | c :: rest => c :: withControls rest
  | [] => []

/-- A text with sets spelled out. -/
def spelledOut : List Char → List Char
  | '\\' :: c :: rest =>
    match spelled.lookup c with
    | some set => set.toList ++ spelledOut rest
    | none => '\\' :: c :: spelledOut rest
  | c :: rest => c :: spelledOut rest
  | [] => []

/-! ## Behind a backslash -/

/-- What stands behind a backslash. -/
inductive Escape where
  /-- A character. -/
  | char (c : Char)
  /-- A set of characters. -/
  | set (s : CharSet)
  /-- A place. -/
  | place (p : Pattern)
  /-- The number of a group. -/
  | number (n : Nat)
  /-- The name of a group. -/
  | name (s : String)

/-- The characters that letters denote. -/
def letters : List (Char × Char) :=
  [('a', '\x07'), ('f', '\x0c'), ('n', '\n'), ('r', '\r'), ('t', '\t'), ('v', '\x0b'),
    ('e', '\x1b')]

/-- The places that letters denote. -/
def places : List (Char × Pattern) :=
  [('A', .start false), ('z', .stop false), ('b', .boundary true), ('B', .boundary false),
    ('K', .empty), ('G', .start false)]

/-- The hexadecimal digits. -/
def hexDigits : CharSet := .ranges [(0x30, 0x39), (0x41, 0x46), (0x61, 0x66)]

/-- A character by its code point: a fixed number of digits, or up to eight within braces. -/
def codePoint? (count : Nat) (s : List Char) : Option (Char × List Char) :=
  match Text.hex? count s with
  | some (n, rest) => (Text.character? n).map (·, rest)
  | none =>
    match s with
    | '{' :: rest =>
      let digits := rest.takeWhile fun c => hexDigits.has c.toNat
      match rest.drop digits.length with
      | '}' :: rest =>
        if digits.length ≤ 8 then
          ((Numeral.natural? 16 digits).bind Text.character?).map (·, rest)
        else none
      | _ => none
    | _ => none

/-- A character of a name of a group. -/
def isNameChar (c : Char) : Bool := c.isAlphanum || c == '_' || 0x80 ≤ c.toNat

/-- A name up to a mark, and the text after it. -/
def name? (stop : Char) (s : List Char) : Option (String × List Char) :=
  let name := s.takeWhile isNameChar
  match s.drop name.length with
  | c :: rest => if c = stop ∧ name ≠ [] then some (String.ofList name, rest) else none
  | [] => none

/-- The categories of characters that have a name, with their ranges. Behind the last Latin letter
with an accent, only letters, numbers and separators are told apart. -/
def categories : List (String × List (Nat × Nat)) :=
  let upper : List (Nat × Nat) := [(0x41, 0x5a), (0xc0, 0xd6), (0xd8, 0xde)]
  let lower : List (Nat × Nat) := [(0x61, 0x7a), (0xb5, 0xb5), (0xdf, 0xf6), (0xf8, 0xff)]
  let punctuation : List (Nat × Nat) := [(0x21, 0x23), (0x25, 0x2a), (0x2c, 0x2f), (0x3a, 0x3b),
    (0x3f, 0x40), (0x5b, 0x5d), (0x5f, 0x5f), (0x7b, 0x7b), (0x7d, 0x7d), (0xa1, 0xa1),
    (0xa7, 0xa7), (0xab, 0xab), (0xb6, 0xb7), (0xbb, 0xbb), (0xbf, 0xbf)]
  let symbol : List (Nat × Nat) := [(0x24, 0x24), (0x2b, 0x2b), (0x3c, 0x3e), (0x5e, 0x5e),
    (0x60, 0x60), (0x7c, 0x7c), (0x7e, 0x7e), (0xa2, 0xa6), (0xa8, 0xa9), (0xac, 0xac),
    (0xae, 0xb1), (0xb4, 0xb4), (0xb8, 0xb8), (0xd7, 0xd7), (0xf7, 0xf7)]
  let separator : List (Nat × Nat) := [(0x20, 0x20), (0xa0, 0xa0), (0x2028, 0x2029)]
  let control : List (Nat × Nat) := [(0x00, 0x1f), (0x7f, 0x9f)]
  [("l", Text.letterRanges), ("letter", Text.letterRanges), ("alphabetic", Text.letterRanges),
    ("alpha", Text.letterRanges), ("lu", upper), ("uppercaseletter", upper), ("uppercase", upper),
    ("upper", upper), ("ll", lower), ("lowercaseletter", lower), ("lowercase", lower),
    ("lower", lower), ("n", Text.numberRanges), ("number", Text.numberRanges),
    ("nd", [(0x30, 0x39)]), ("decimalnumber", [(0x30, 0x39)]), ("digit", [(0x30, 0x39)]),
    ("p", punctuation), ("punctuation", punctuation), ("punct", punctuation), ("s", symbol),
    ("symbol", symbol), ("z", separator), ("separator", separator),
    ("zs", [(0x20, 0x20), (0xa0, 0xa0)]), ("cc", control), ("control", control),
    ("cntrl", control), ("any", [(0, 0x10ffff)]), ("ascii", [(0, 0x7f)])]

/-- The category at the front of a text: a letter, or a name within braces. -/
def category? (s : List Char) : Option (CharSet × List Char) :=
  let (name, rest) :=
    match s with
    | '{' :: rest => (rest.takeWhile (· != '}'), (rest.dropWhile (· != '}')).drop 1)
    | s => (s.take 1, s.drop 1)
  let negative := name.head? == some '^'
  let key := ((if negative then name.drop 1 else name).filter
    fun c => !(c == '_' || c == '-' || c == ' ')).map Char.toLower
  (categories.lookup (String.ofList key)).map fun list =>
    (if negative then .complement (.ranges list) else .ranges list, rest)

/-- What stands behind a backslash, and the text after it. -/
def escape? : List Char → Option (Escape × List Char)
  | [] => none
  | c :: rest =>
    if c.isDigit then
      let digits := c :: rest.takeWhile Char.isDigit
      (Numeral.natural? 10 digits).map fun n => (.number n, rest.drop (digits.length - 1))
    else if c = 'k' then
      match rest with
      | '<' :: rest => (name? '>' rest).map fun (n, rest) => (.name n, rest)
      | '\'' :: rest => (name? '\'' rest).map fun (n, rest) => (.name n, rest)
      | _ => none
    else if c = 'x' then (codePoint? 2 rest).map fun (d, rest) => (.char d, rest)
    else if c = 'u' then (codePoint? 4 rest).map fun (d, rest) => (.char d, rest)
    else if c = 'U' then (codePoint? 8 rest).map fun (d, rest) => (.char d, rest)
    else if c = 'h' then some (.set hexDigits, rest)
    else if c = 'H' then some (.set (.complement hexDigits), rest)
    else if c = 'p' then (category? rest).map fun (s, rest) => (.set s, rest)
    else if c = 'P' then (category? rest).map fun (s, rest) => (.set (.complement s), rest)
    else
      match letters.lookup c, places.lookup c with
      | some d, _ => some (.char d, rest)
      | none, some p => some (.place p, rest)
      | none, none => if c.isAlpha || 0x7f < c.toNat then none else some (.char c, rest)

/-! ## Sets in brackets -/

/-- One end of a range. -/
inductive Item where
  /-- A character. -/
  | char (c : Char)
  /-- A set. -/
  | set (s : CharSet)

/-- The set of an item alone. -/
def Item.toSet : Item → CharSet
  | .char c => .one c
  | .set s => s

/-- The item at the front of a text. -/
def item? : List Char → Option (Item × List Char)
  | '\\' :: rest =>
    match escape? rest with
    | some (.char c, rest) => some (.char c, rest)
    | some (.set s, rest) => some (.set s, rest)
    | _ => none
  | c :: rest => some (.char c, rest)
  | [] => none

/-- The range or the item at the front of a text. -/
def range? (s : List Char) : Option (CharSet × List Char) :=
  match item? s with
  | none => none
  | some (a, rest) =>
    match rest with
    | '-' :: b :: more =>
      if b = ']' ∨ b = '-' then some (a.toSet, rest)
      else
        match a, item? (b :: more) with
        | .char c, some (.char d, rest) =>
          if c.toNat ≤ d.toNat then some (.ranges [(c.toNat, d.toNat)], rest) else none
        | _, _ => none
    | _ => some (a.toSet, rest)

/-- The sets that have a name between colons. -/
def namedSets : List (String × List (Nat × Nat)) :=
  [("alnum", [(0x30, 0x39), (0x41, 0x5a), (0x61, 0x7a)]), ("alpha", [(0x41, 0x5a), (0x61, 0x7a)]),
    ("ascii", [(0, 0x7f)]), ("blank", [(0x09, 0x09), (0x20, 0x20)]),
    ("cntrl", [(0, 0x1f), (0x7f, 0x7f)]), ("digit", [(0x30, 0x39)]), ("graph", [(0x21, 0x7e)]),
    ("lower", [(0x61, 0x7a)]), ("print", [(0x20, 0x7e)]),
    ("punct", [(0x21, 0x2f), (0x3a, 0x40), (0x5b, 0x60), (0x7b, 0x7e)]),
    ("space", [(0x09, 0x0d), (0x20, 0x20)]), ("upper", [(0x41, 0x5a)]),
    ("word", [(0x30, 0x39), (0x41, 0x5a), (0x5f, 0x5f), (0x61, 0x7a)]),
    ("xdigit", [(0x30, 0x39), (0x41, 0x46), (0x61, 0x66)])]

/-- A named set between brackets and colons. -/
def namedSet? : List Char → Option (CharSet × List Char)
  | '[' :: ':' :: rest =>
    let negative := rest.head? == some '^'
    let rest := if negative then rest.drop 1 else rest
    let name := rest.takeWhile Char.isAlpha
    match rest.drop name.length, namedSets.lookup (String.ofList name) with
    | ':' :: ']' :: rest, some list =>
      some (if negative then .complement (.ranges list) else .ranges list, rest)
    | _, _ => none
  | _ => none

/-- The operations on the sets before and behind two equal marks. -/
def setOperation? (c : Char) : Option (CharSet → CharSet → CharSet) :=
  if c = '&' then some .both
  else if c = '-' then some .without
  else if c = '~' then some .either
  else none

mutual

/-- The items of a set up to its closing bracket; `before` is the union of the earlier ones. -/
def items? : Nat → CharSet → List Char → Option (CharSet × List Char)
  | 0, _, _ => none
  | bound + 1, before, s =>
    match s with
    | [] => none
    | ']' :: rest => some (before, rest)
    | '[' :: rest =>
      match namedSet? s with
      | some (set, rest) => items? bound (.union before set) rest
      | none =>
        match set? bound rest with
        | some (set, rest) => items? bound (.union before set) rest
        | none => none
    | c :: d :: rest =>
      match if c = d then setOperation? c else none with
      | some operation =>
        (items? bound (.ranges []) rest).map fun (after, rest) => (operation before after, rest)
      | none =>
        match range? s with
        | some (set, rest) => items? bound (.union before set) rest
        | none => none
    | [_] => none

/-- A set behind its opening bracket. A circumflex takes the complement, dashes at the beginning
stand for themselves, and so does a closing bracket there. -/
def set? : Nat → List Char → Option (CharSet × List Char)
  | 0, _ => none
  | bound + 1, s =>
    let negative := s.head? == some '^'
    let s := if negative then s.drop 1 else s
    let dashes := s.takeWhile (· == '-')
    let rest := s.drop dashes.length
    let start := if dashes.isEmpty then .ranges [] else CharSet.one '-'
    let found :=
      match dashes, rest with
      | [], ']' :: rest => items? bound (.one ']') rest
      | _, rest => items? bound start rest
    found.map fun (set, rest) => (if negative then .complement set else set, rest)

end

/-! ## Repetitions -/

/-- A decimal number, if there is one, and the text after it. -/
def number (s : List Char) : Option Nat × List Char :=
  let digits := s.takeWhile Char.isDigit
  (Numeral.natural? 10 digits, s.drop digits.length)

/-- A number of repetitions within braces: the least, and the greatest if there is one. -/
def braces? (s : List Char) : Option ((Nat × Option Nat) × List Char) :=
  let (least?, rest) := number s
  match least?, rest with
  | some n, '}' :: rest => some ((n, some n), rest)
  | least?, ',' :: rest =>
    let (most?, rest) := number rest
    match rest with
    | '}' :: rest => some ((least?.getD 0, most?), rest)
    | _ => none
  | _, _ => none

/-- The number of repetitions behind a piece, if there is one. -/
def count? : List Char → Option ((Nat × Option Nat) × List Char)
  | '?' :: rest => some ((0, some 1), rest)
  | '*' :: rest => some ((0, none), rest)
  | '+' :: rest => some ((1, none), rest)
  | '{' :: rest => braces? rest
  | _ => none

/-- The text behind a mark for few repetitions or for no going back. Neither changes which texts
match. -/
def dropMood (s : List Char) : List Char :=
  let s := if s.head? = some '?' then s.drop 1 else s
  if s.head? = some '+' then s.drop 1 else s

/-- A pattern can be repeated. -/
def isRepeatable : Pattern → Bool
  | .empty => false
  | .start _ => false
  | .stop _ => false
  | .look .. => false
  | _ => true

/-- The number of characters that a pattern matches, if it is always the same. -/
def size? : Pattern → Option Nat
  | .one .. => some 1
  | .seq a b => (size? a).bind fun n => (size? b).map (n + ·)
  | .alt a b => (size? a).filter fun n => size? b == some n
  | .group _ p => size? p
  | .again _ => none
  | .repeated p least most? =>
    if most? = some least then (size? p).map (least * ·) else none
  | _ => some 0

/-- Each of the alternatives always matches the same number of characters. -/
def haveSizes : Pattern → Bool
  | .alt a b => (size? a).isSome && haveSizes b
  | p => (size? p).isSome

/-- A pattern that has to match up to a place has alternatives of fixed sizes. -/
def looksRightly : Pattern → Bool
  | .look false _ p => haveSizes p
  | _ => true

/-! ## Patterns -/

/-- How the text is read. -/
structure Mode where
  /-- Letters match in either case. -/
  folded : Bool
  /-- Anchors stand for the ends of lines. -/
  lines : Bool
  /-- A point matches a line feed, too. -/
  dotAll : Bool
  /-- White space in a pattern does not count. -/
  spaced : Bool
  /-- The number of groups so far. -/
  groups : Nat
  /-- The names of groups with their numbers. -/
  names : List (String × Nat)

/-- The mode at the beginning. -/
def Mode.standard : Mode := ⟨false, false, false, false, 0, []⟩

/-- The flags of another mode, and the groups of this one. -/
def Mode.withFlagsOf (m other : Mode) : Mode :=
  { other with groups := m.groups, names := m.names }

/-- The text after what does not count: comments, and white space if the mode says so. -/
def skip (m : Mode) : Nat → List Char → List Char
  | 0, s => s
  | bound + 1, s =>
    match s with
    | '(' :: '?' :: '#' :: rest => skip m bound ((rest.dropWhile (· != ')')).drop 1)
    | '#' :: rest => if m.spaced then skip m bound (rest.dropWhile (· != '\n')) else s
    | c :: rest => if m.spaced && c.isWhitespace then skip m bound rest else s
    | [] => []

/-- The mode after flags, and the text after them; `off` holds behind a minus sign. -/
def flags? (m : Mode) (off : Bool) : List Char → Option (Mode × List Char)
  | 'i' :: rest => flags? { m with folded := !off } off rest
  | 'm' :: rest => flags? { m with lines := !off } off rest
  | 's' :: rest => flags? { m with dotAll := !off } off rest
  | 'x' :: rest => flags? { m with spaced := !off } off rest
  | 'U' :: rest => flags? m off rest
  | 'u' :: rest => if off then none else flags? m off rest
  | '-' :: rest => if off then none else flags? m true rest
  | ')' :: rest => some (m, ')' :: rest)
  | ':' :: rest => some (m, ':' :: rest)
  | _ => none

/-- What has been read: a pattern, the mode after it and the text after it. -/
abbrev Found : Type := Pattern × Mode × List Char

/-- The pattern of a character. -/
def literal (m : Mode) (c : Char) : Pattern := .one (.one c) m.folded

/-- The pattern of what stands behind a backslash. A group has to be there before it is meant. -/
def ofEscape? (m : Mode) : Escape → Option Pattern
  | .char c => some (literal m c)
  | .set s => some (.one s m.folded)
  | .place p => some p
  | .number n => if n ≤ m.groups then some (.again n) else none
  | .name s => (m.names.lookup s).map .again

/-- All characters but the line feed, or all. -/
def point (m : Mode) : CharSet :=
  if m.dotAll then .ranges [(0, 0x10ffff)] else .complement (.one '\n')

/-- The kind of a group, by the text behind its parenthesis. -/
inductive Opening where
  /-- A pattern that has to match, or not, from the place on, or up to it. -/
  | look (ahead negative : Bool)
  /-- A group with a name. -/
  | named (name : String)
  /-- A group that is remembered. -/
  | plain
  /-- A group that is not remembered. -/
  | silent
  /-- A named group again. -/
  | again (name : String)
  /-- Flags. -/
  | flags

/-- The kind of a group, and the text after what shows it. -/
def opening? : List Char → Option (Opening × List Char)
  | '?' :: '=' :: rest => some (.look true false, rest)
  | '?' :: '!' :: rest => some (.look true true, rest)
  | '?' :: '<' :: '=' :: rest => some (.look false false, rest)
  | '?' :: '<' :: '!' :: rest => some (.look false true, rest)
  | '?' :: '<' :: rest => (name? '>' rest).map fun (n, rest) => (.named n, rest)
  | '?' :: 'P' :: '<' :: rest => (name? '>' rest).map fun (n, rest) => (.named n, rest)
  | '?' :: 'P' :: '=' :: rest => (name? ')' rest).map fun (n, rest) => (.again n, rest)
  | '?' :: '>' :: rest => some (.silent, rest)
  | '?' :: ':' :: rest => some (.silent, rest)
  | '?' :: rest => if rest.head?.any (fun c => c == ')' || c == '(') then none else
      some (.flags, rest)
  | rest => some (.plain, rest)

/-- The pattern and the mode behind the closing parenthesis of a group. -/
def closed? (outer : Mode) (wrap : Pattern → Pattern) : Option Found → Option Found
  | some (p, m, ')' :: rest) => some (wrap p, m.withFlagsOf outer, rest)
  | _ => none

mutual

/-- Alternatives between bars. -/
def alternatives? : Nat → Mode → List Char → Option Found
  | 0, _, _ => none
  | bound + 1, m, s =>
    match row? bound m s with
    | none => none
    | some (p, m, rest) =>
      match skip m rest.length rest with
      | '|' :: rest =>
        (alternatives? bound m rest).map fun (q, m, rest) => (.alt p q, m, rest)
      | rest => some (p, m, rest)

/-- A row of pieces. -/
def row? : Nat → Mode → List Char → Option Found
  | 0, _, _ => none
  | bound + 1, m, s =>
    match piece? bound m s with
    | none => none
    | some (p, m, rest) =>
      if rest.length < s.length then
        (row? bound m rest).map fun (q, m, rest) => (.seq p q, m, rest)
      else some (p, m, rest)

/-- A piece with the number of its repetitions. -/
def piece? : Nat → Mode → List Char → Option Found
  | 0, _, _ => none
  | bound + 1, m, s =>
    match atom? bound m s with
    | none => none
    | some (p, m, rest) =>
      let rest := skip m rest.length rest
      match count? rest with
      | none => some (p, m, rest)
      | some ((least, most?), rest) =>
        if isRepeatable p ∧ most?.all (least ≤ ·) = true then
          some (.repeated p least most?, m, dropMood (skip m rest.length rest))
        else none

/-- A piece alone; nothing at a mark that ends a row or repeats. -/
def atom? : Nat → Mode → List Char → Option Found
  | 0, _, _ => none
  | bound + 1, m, s =>
    match skip m s.length s with
    | [] => some (.empty, m, [])
    | c :: rest =>
      if c = '.' then some (.one (point m) false, m, rest)
      else if c = '^' then some (.start m.lines, m, rest)
      else if c = '$' then some (.stop m.lines, m, rest)
      else if c = '(' then group? bound m (skip m rest.length rest)
      else if c = '\\' then
        match escape? rest with
        | some (e, rest) => (ofEscape? m e).map fun p => (p, m, rest)
        | none => none
      else if c = '[' then
        (set? (rest.length + 1) rest).map fun (set, rest) => (.one set m.folded, m, rest)
      else if ['+', '*', '?', '|', ')'].contains c then some (.empty, m, c :: rest)
      else some (literal m c, m, rest)

/-- A group behind its opening parenthesis. -/
def group? : Nat → Mode → List Char → Option Found
  | 0, _, _ => none
  | bound + 1, m, s =>
    match opening? s with
    | none => none
    | some (.plain, rest) =>
      let n := m.groups + 1
      closed? m (.group n) (alternatives? bound { m with groups := n } rest)
    | some (.named name, rest) =>
      let n := m.groups + 1
      closed? m (.group n)
        (alternatives? bound { m with groups := n, names := (name, n) :: m.names } rest)
    | some (.silent, rest) => closed? m id (alternatives? bound m rest)
    | some (.look ahead negative, rest) =>
      (closed? m (.look ahead negative) (alternatives? bound m rest)).filter
        fun (p, _) => looksRightly p
    | some (.again name, rest) => (ofEscape? m (.name name)).map fun p => (p, m, rest)
    | some (.flags, rest) =>
      match flags? m false rest with
      | some (inner, ':' :: rest) => closed? m id (alternatives? bound inner rest)
      | some (inner, ')' :: rest) => some (.empty, inner, rest)
      | _ => none

end

/-- **The pattern of a text.** -/
def read? (text : String) : Option Pattern :=
  let s := spelledOut (withControls text.toList)
  match alternatives? (5 * s.length + 5) .standard s with
  | some (p, _, []) => some p.simplified
  | _ => none

example : (read? "^a(b|c)*$").any (·.occursIn "abcb") = true := by decide +kernel
example : (read? "^a(b|c)*$").any (·.occursIn "abd") = false := by decide +kernel
example : (read? "(").isNone = true := by decide +kernel

end Reconfig.Pattern
