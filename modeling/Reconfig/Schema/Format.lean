import Reconfig.Pattern.Reader
import Reconfig.Text.Blank
import Reconfig.Text.Letter
import Reconfig.Text.Moment
import Reconfig.Url.Reader

/-!
# Formats of texts

A format is a named form of texts. A schema may ask for it by its name; a name that is none of a
format asks for nothing.

* `isEmail`, `isHostname`, `isIpv4`, `isPointer`, `isTemplate` and the like: the forms;
* `Format`, `Format.name`, `Format.ofName?`; **`Format.admits`**.
-/

namespace Reconfig.Schema

/-! ## Forms -/

/-- The text is an address of its own. -/
def isAddress (s : List Char) : Bool :=
  match Url.read (String.ofList s) with
  | .ok _ => true
  | .error _ => false

/-- The text may be an address, also a relative one: it holds neither blanks nor backslashes. -/
def isReference (s : List Char) : Bool := s.all fun c => !(Text.isBlank c || c == '\\')

/-- The text is a pattern. -/
def isPattern (s : List Char) : Bool := (Pattern.read? (String.ofList s)).isSome

/-- Some character but the first is an at sign, and up to it no point has a point or an at sign
behind it. -/
def hasLocalPart : List Char → Bool
  | a :: b :: rest =>
    if a = '.' ∧ (b = '.' ∨ b = '@') then false
    else if b = '@' then true
    else hasLocalPart (b :: rest)
  | _ => false

/-- The text is a mail address: what stands before the at sign does not begin or end with a point
and has no two points in a row. -/
def isEmail (s : List Char) : Bool := s.head? != some '.' && hasLocalPart s

/-- The text is a name of at most 255 characters. Its parts between points have at most 63 each
and consist of letters, numbers and dashes; no dash stands at either end of the text. -/
def isHostname (s : List Char) : Bool :=
  s != [] && s.head? != some '-' && s.getLast? != some '-' && s.length ≤ 255 &&
    s.all (fun c => Text.isAlphanumeric c || c == '-' || c == '.') &&
    (Text.pieces '.' s).all (·.length ≤ 63)

/-- The text is four bytes between points, the first of which does not begin with a zero. -/
def isIpv4 (s : List Char) : Bool := s.head? != some '0' && (Url.wordsOfBytes? s).isSome

/-- Every tilde has a zero or a one behind it. -/
def tildesEscaped : List Char → Bool
  | '~' :: c :: rest => (c == '0' || c == '1') && tildesEscaped rest
  | ['~'] => false
  | _ :: rest => tildesEscaped rest
  | [] => true

/-- The text is a way to a place in a document. -/
def isPointer (s : List Char) : Bool := (s == [] || s.head? == some '/') && tildesEscaped s

/-- The text is a number of steps back, and then a way or a number sign. -/
def isRelativePointer (s : List Char) : Bool :=
  let digits := s.takeWhile Char.isDigit
  let rest := s.drop digits.length
  digits != [] && (digits.head? != some '0' || digits.length == 1) &&
    (rest == ['#'] || isPointer rest)

/-- A hexadecimal digit with a small letter. -/
def isSmallHex (c : Char) : Bool := c.isDigit || (0x61 ≤ c.toNat && c.toNat ≤ 0x66)

/-- A character that may stand in a template outside its braces. -/
def isTemplateChar (c : Char) : Bool :=
  0x20 < c.toNat &&
    !(['\x22', '\'', '<', '>', '%', '\\', '^', '\x60', '{', '|', '}'].contains c)

/-- The text after a name in a template; none if there is no name. -/
def templateName? : Bool → List Char → Option (List Char)
  | found, '%' :: a :: b :: rest =>
    if isSmallHex a && isSmallHex b then templateName? true rest
    else if found then some ('%' :: a :: b :: rest) else none
  | found, c :: rest =>
    if c.isLower || c.isDigit || c == '_' then templateName? true rest
    else if found then some (c :: rest) else none
  | found, [] => if found then some [] else none

/-- The text after a length of at most four digits, or after a star, or as it is. -/
def afterModifier : List Char → List Char
  | '*' :: rest => rest
  | ':' :: rest =>
    let digits := (rest.take 4).takeWhile Char.isDigit
    if digits = [] ∨ digits.head? = some '0' then ':' :: rest else rest.drop digits.length
  | s => s

/-- The text after names between commas and a closing brace, for a bounded number of names. -/
def templateNames? : Nat → List Char → Option (List Char)
  | 0, _ => none
  | bound + 1, s =>
    match (templateName? false s).map afterModifier with
    | some (',' :: rest) => templateNames? bound rest
    | some ('}' :: rest) => some rest
    | _ => none

/-- The text is an address with places for values in braces, for a bounded number of steps. -/
def isTemplateWithin : Nat → List Char → Bool
  | _, [] => true
  | 0, _ => false
  | bound + 1, '%' :: a :: b :: rest =>
    isSmallHex a && isSmallHex b && isTemplateWithin bound rest
  | bound + 1, '{' :: rest =>
    let mark := ['+', '#', '.', '/', ';', '?', '&', '=', ',', '!', '@', '|']
    let rest := if rest.head?.any mark.contains then rest.drop 1 else rest
    match templateNames? (rest.length + 1) rest with
    | some rest => isTemplateWithin bound rest
    | none => false
  | bound + 1, c :: rest => isTemplateChar c && isTemplateWithin bound rest

/-- The text is an address with places for values in braces. -/
def isTemplate (s : List Char) : Bool := isTemplateWithin s.length s

/-! ## Formats -/

/-- A named form of texts. -/
inductive Format where
  /-- A date. -/
  | date
  /-- A date with a time. -/
  | dateTime
  /-- A mail address. -/
  | email
  /-- The name of a host. -/
  | hostname
  /-- A mail address with letters of any script. -/
  | idnEmail
  /-- The name of a host with letters of any script. -/
  | idnHostname
  /-- Four bytes that stand for a host. -/
  | ipv4
  /-- Eight words that stand for a host. -/
  | ipv6
  /-- An address with letters of any script. -/
  | iri
  /-- An address with letters of any script, maybe a relative one. -/
  | iriReference
  /-- A way to a place in a document. -/
  | pointer
  /-- A pattern. -/
  | pattern
  /-- A way from one place in a document to another. -/
  | relativePointer
  /-- A time of a day. -/
  | time
  /-- An address. -/
  | uri
  /-- An address, maybe a relative one. -/
  | uriReference
  /-- An address with places for values. -/
  | uriTemplate
  deriving DecidableEq, Repr

namespace Format

/-- All formats. -/
def all : List Format :=
  [.date, .dateTime, .email, .hostname, .idnEmail, .idnHostname, .ipv4, .ipv6, .iri,
   .iriReference, .pointer, .pattern, .relativePointer, .time, .uri, .uriReference, .uriTemplate]

/-- The name of a format. -/
def name : Format → String
  | .date => "date"
  | .dateTime => "date-time"
  | .email => "email"
  | .hostname => "hostname"
  | .idnEmail => "idn-email"
  | .idnHostname => "idn-hostname"
  | .ipv4 => "ipv4"
  | .ipv6 => "ipv6"
  | .iri => "iri"
  | .iriReference => "iri-reference"
  | .pointer => "json-pointer"
  | .pattern => "regex"
  | .relativePointer => "relative-json-pointer"
  | .time => "time"
  | .uri => "uri"
  | .uriReference => "uri-reference"
  | .uriTemplate => "uri-template"

/-- The format of a name. -/
def ofName? (s : String) : Option Format := all.find? fun f => f.name == s

/-- The characters of a text have the form. -/
def holds (f : Format) (s : List Char) : Bool :=
  match f with
  | .date => Text.isDate s
  | .dateTime => Text.isDateTime s
  | .email => isEmail s
  | .hostname => isHostname s
  | .idnEmail => isEmail s
  | .idnHostname => isHostname s
  | .ipv4 => isIpv4 s
  | .ipv6 => (Url.ipv6? s).isSome
  | .iri => isAddress s
  | .iriReference => isReference s
  | .pointer => isPointer s
  | .pattern => isPattern s
  | .relativePointer => isRelativePointer s
  | .time => Text.isTime s
  | .uri => isAddress s
  | .uriReference => isReference s
  | .uriTemplate => isTemplate s

/-- **A text has the form of a format.** -/
def admits (f : Format) (text : String) : Bool := f.holds text.toList

end Format

example : isEmail "a.b@c".toList = true := by decide
example : isEmail "a.@c".toList = false := by decide
example : isIpv4 "10.0.0.255".toList = true := by decide
example : isIpv4 "10.0.0.256".toList = false := by decide
example : isPointer "/a~1b/~0".toList = true := by decide
example : isTemplate "/a/\x7b?b*,c:3\x7d".toList = true := by decide

end Reconfig.Schema
