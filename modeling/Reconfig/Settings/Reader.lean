import Reconfig.Settings.Basic
import Reconfig.Text.Scan

/-!
# Reading settings

Settings are written in TOML, one on a line: a key, an equals sign, and a text or a truth value.
Every key is optional and stands at most once, and no other keys exist. A text is quoted in one of
four ways: between quotes, with escapes, or between apostrophes, without any, each on one line or
between three of them over several. Values of other kinds and tables belong to no setting, so no
text that holds one denotes settings.

* `Setting`: the value of a key; `literal?`, `key?`, `entry?`, `entries?`;
* `Settings.assign?`: one key's value;
* **`Settings.read?`**.
-/

namespace Reconfig

/-- The value of a key. -/
inductive Setting where
  /-- A text. -/
  | text (s : String)
  /-- A truth value. -/
  | flag (b : Bool)

namespace Setting

/-! ## Characters -/

/-- A blank within a line. -/
def isBlank (c : Char) : Bool := c == ' ' || c == '\t'

/-- The text after leading blanks. -/
def skipBlank (s : List Char) : List Char := s.dropWhile isBlank

/-- A character that stands for itself within a line. -/
def isPlain (c : Char) : Bool := c == '\t' || (0x20 ≤ c.toNat && c.toNat != 0x7f)

/-- A character of a key without quotes. -/
def isBare (c : Char) : Bool := c.isAlphanum || c == '_' || c == '-'

/-- The text after the end of a line, or the empty text at the end. -/
def lineBreak? : List Char → Option (List Char)
  | [] => some []
  | '\n' :: rest => some rest
  | '\r' :: '\n' :: rest => some rest
  | _ => none

/-- The text after the rest of a line that may hold a comment only. -/
def lineEnd? (s : List Char) : Option (List Char) :=
  match skipBlank s with
  | '#' :: rest => lineBreak? (rest.dropWhile isPlain)
  | rest => lineBreak? rest

/-- The text after leading blanks and line breaks. -/
def skipSpace : List Char → List Char
  | '\r' :: '\n' :: rest => skipSpace rest
  | c :: rest => if isBlank c || c == '\n' then skipSpace rest else c :: rest
  | [] => []

/-! ## Quoted texts -/

/-- The character that a letter after a backslash denotes. -/
def escapedLetter? (c : Char) : Option Char :=
  if c = '\x22' ∨ c = '\\' then some c
  else if c = 'b' then some '\x08'
  else if c = 't' then some '\t'
  else if c = 'n' then some '\n'
  else if c = 'f' then some '\x0c'
  else if c = 'r' then some '\r'
  else none

/-- The character of a code point in the given number of digits. -/
def escapedPoint (count : Nat) (s : List Char) : Text.Step :=
  match Text.hex? count s with
  | none => .fail
  | some (n, rest) =>
    match Text.character? n with
    | some c => .emit [c] rest
    | none => .fail

/-- What follows a backslash. -/
def escape : List Char → Text.Step
  | 'u' :: rest => escapedPoint 4 rest
  | 'U' :: rest => escapedPoint 8 rest
  | c :: rest =>
    match escapedLetter? c with
    | some c => .emit [c] rest
    | none => .fail
  | [] => .fail

/-- Texts between quotes, on one line. -/
def quotedStep : List Char → Text.Step
  | '\x22' :: rest => .close rest
  | '\\' :: rest => escape rest
  | c :: rest => if isPlain c then .emit [c] rest else .fail
  | [] => .fail

/-- Texts between apostrophes, on one line. -/
def literalStep : List Char → Text.Step
  | '\'' :: rest => .close rest
  | c :: rest => if isPlain c then .emit [c] rest else .fail
  | [] => .fail

/-- The end of a text between three marks. Up to two more marks right before the end belong to the
text. -/
def longEnd? (mark : Char) (s : List Char) : Option Text.Step :=
  let marks := (s.takeWhile (· == mark)).length
  if marks < 3 then none
  else if marks = 3 then some (.close (s.drop 3))
  else if marks ≤ 5 then some (.emit [mark] (s.drop 1))
  else some .fail

/-- A character of a text over several lines. -/
def longPlain : List Char → Text.Step
  | '\n' :: rest => .emit ['\n'] rest
  | '\r' :: '\n' :: rest => .emit ['\n'] rest
  | c :: rest => if isPlain c then .emit [c] rest else .fail
  | [] => .fail

/-- A backslash at the end of a line leaves out all space up to the next other character. -/
def longEscape (s : List Char) : Text.Step :=
  match skipBlank s with
  | '\n' :: rest => .emit [] (skipSpace rest)
  | '\r' :: '\n' :: rest => .emit [] (skipSpace rest)
  | _ => escape s

/-- Texts between three quotes. -/
def longQuotedStep (s : List Char) : Text.Step :=
  match longEnd? '\x22' s with
  | some step => step
  | none =>
    match s with
    | '\\' :: rest => longEscape rest
    | s => longPlain s

/-- Texts between three apostrophes. -/
def longLiteralStep (s : List Char) : Text.Step := (longEnd? '\'' s).getD (longPlain s)

/-- The text after a line break right behind the opening marks. -/
def skipLineBreak : List Char → List Char
  | '\n' :: rest => rest
  | '\r' :: '\n' :: rest => rest
  | s => s

/-! ## Values and keys -/

/-- The text of a step's characters. -/
def spanned (step : List Char → Text.Step) (s : List Char) : Option (String × List Char) :=
  (Text.span? step s).map fun (chars, rest) => (String.ofList chars, rest)

/-- A quoted text on one line. -/
def short? : List Char → Option (String × List Char)
  | '\x22' :: rest => spanned quotedStep rest
  | '\'' :: rest => spanned literalStep rest
  | _ => none

/-- A quoted text. -/
def quoted? : List Char → Option (String × List Char)
  | '\x22' :: '\x22' :: '\x22' :: rest => spanned longQuotedStep (skipLineBreak rest)
  | '\'' :: '\'' :: '\'' :: rest => spanned longLiteralStep (skipLineBreak rest)
  | s => short? s

/-- The value at the front of a text. -/
def literal? : List Char → Option (Setting × List Char)
  | 't' :: 'r' :: 'u' :: 'e' :: rest => some (.flag true, rest)
  | 'f' :: 'a' :: 'l' :: 's' :: 'e' :: rest => some (.flag false, rest)
  | s => (quoted? s).map fun (t, rest) => (.text t, rest)

/-- The key at the front of a text. -/
def key? (s : List Char) : Option (String × List Char) :=
  match s.takeWhile isBare with
  | [] => short? s
  | bare => some (String.ofList bare, s.dropWhile isBare)

/-- A key with its value, up to the end of the line. -/
def entry? (s : List Char) : Option ((String × Setting) × List Char) :=
  match key? s with
  | none => none
  | some (key, rest) =>
    match skipBlank rest with
    | '=' :: rest =>
      match literal? (skipBlank rest) with
      | none => none
      | some (v, rest) => (lineEnd? rest).map ((key, v), ·)
    | _ => none

/-- All keys with their values; the bound is on the number of lines. -/
def entries? : Nat → List Char → Option (List (String × Setting))
  | 0, _ => none
  | _ + 1, [] => some []
  | bound + 1, s =>
    match lineEnd? s with
    | some rest => entries? bound rest
    | none =>
      match entry? (skipBlank s) with
      | none => none
      | some (e, rest) => (entries? bound rest).map (e :: ·)

/-- The text after the mark that some editors put at the beginning. -/
def skipMark : List Char → List Char
  | '\ufeff' :: rest => rest
  | s => s

end Setting

namespace Settings

/-- Settings with the value of one key; none if there is no such key, or not of that kind. -/
def assign? (s : Settings) (key : String) (v : Setting) : Option Settings :=
  match key, v with
  | "schema_dir", .text t => some { s with schemaDirectory? := some t }
  | "validate_desired", .flag b => some { s with validateDesired := b }
  | "skip_node_specific", .flag b => some { s with skipNodeSpecific := b }
  | "log_filter", .text t => some { s with logFilter := t }
  | _, _ => none

/-- **The settings that a text denotes.** -/
def read? (text : String) : Option Settings := do
  let entries ← Setting.entries? (text.length + 1) (Setting.skipMark text.toList)
  if (entries.map (·.1)).Nodup then
    entries.foldlM (fun s e => s.assign? e.1 e.2) {}
  else none

end Settings

end Reconfig
