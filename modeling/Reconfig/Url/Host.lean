import Reconfig.Url.Basic
import Reconfig.Text.Split

/-!
# Hosts

The host of an address is a name, four bytes as numbers between points, or eight words as
hexadecimal numbers between colons, within brackets.

* `ipv4?`: four bytes; the last of fewer numbers fills the bytes that are left;
* `ipv6?`, `ipv6Text`: eight words; two colons stand for as many zero words as are missing;
* **`host?`**: the host of a text.

Letters beyond ASCII are kept as they are.
-/

namespace Reconfig.Url

/-! ## Four bytes -/

/-- A number in decimal, in octal behind a zero, or in hexadecimal behind `0x`. -/
def hostNumber? : List Char → Option Nat
  | '0' :: 'x' :: [] => some 0
  | '0' :: 'x' :: rest => Numeral.natural? 16 rest
  | '0' :: 'X' :: [] => some 0
  | '0' :: 'X' :: rest => Numeral.natural? 16 rest
  | '0' :: c :: rest => Numeral.natural? 8 (c :: rest)
  | s => Numeral.natural? 10 s

/-- The parts of a name, without an empty one at the end. -/
def nameParts (s : List Char) : List (List Char) :=
  let parts := Text.pieces '.' s
  if 1 < parts.length ∧ parts.getLast? = some [] then parts.dropLast else parts

/-- The name ends in a number, so it has to be four bytes. -/
def endsInNumber (s : List Char) : Bool :=
  match (nameParts s).getLast? with
  | some part =>
    (!part.isEmpty && part.all Char.isDigit) ||
      ((part.take 2 == ['0', 'x'] || part.take 2 == ['0', 'X']) && (hostNumber? part).isSome)
  | none => false

/-- The value of four bytes from numbers, the last of which fills the bytes that are left. -/
def ipv4Value? (numbers : List Nat) : Option Nat :=
  let rest := numbers.dropLast
  match numbers.getLast? with
  | some last =>
    if numbers.length ≤ 4 ∧ rest.all (· ≤ 255) = true ∧ last < Nat.pow 256 (5 - numbers.length) then
      some (rest.foldl (fun n b => 256 * n + b) 0 * Nat.pow 256 (5 - numbers.length) + last)
    else none
  | none => none

/-- Numbers between points. -/
def dotted (numbers : List Nat) : List Char :=
  List.intercalate ['.'] (numbers.map (Nat.toDigits 10))

/-- The text of four bytes. -/
def ipv4Text (n : Nat) : List Char :=
  dotted [n / Nat.pow 256 3 % 256, n / Nat.pow 256 2 % 256, n / 256 % 256, n % 256]

/-- Four bytes. -/
def ipv4? (s : List Char) : Option (List Char) :=
  (((nameParts s).mapM hostNumber?).bind ipv4Value?).map ipv4Text

/-! ## Eight words -/

/-- A word of one to four hexadecimal digits. -/
def word? (s : List Char) : Option Nat :=
  if s.length ≤ 4 then Numeral.natural? 16 s else none

/-- A byte in decimal without further zeros. -/
def byteNumber? (s : List Char) : Option Nat :=
  if s.head? = some '0' ∧ 1 < s.length then none
  else (Numeral.natural? 10 s).filter (· ≤ 255)

/-- Two words from four bytes. -/
def wordsOfBytes? (s : List Char) : Option (List Nat) :=
  match (Text.pieces '.' s).mapM byteNumber? with
  | some [a, b, c, d] => some [256 * a + b, 256 * c + d]
  | _ => none

/-- Words between colons; four bytes may stand for the last two. -/
def words? (s : List Char) : Option (List Nat) :=
  if s = [] then some []
  else
    let pieces := Text.pieces ':' s
    match pieces.getLast? with
    | some last =>
      if last.contains '.' then
        match pieces.dropLast.mapM word?, wordsOfBytes? last with
        | some words, some more => some (words ++ more)
        | _, _ => none
      else pieces.mapM word?
    | none => none

/-- The texts before and after the first two colons in a row. -/
def splitColons? : List Char → Option (List Char × List Char)
  | ':' :: ':' :: rest => some ([], rest)
  | c :: rest => (splitColons? rest).map fun (a, b) => (c :: a, b)
  | [] => none

/-- Eight words. -/
def ipv6? (s : List Char) : Option (List Nat) :=
  match splitColons? s with
  | none => (words? s).filter (·.length == 8)
  | some (before, after) =>
    match (words? before).filter fun _ => !before.contains '.', words? after with
    | some a, some b =>
      if a.length + b.length ≤ 7 then some (a ++ List.replicate (8 - a.length - b.length) 0 ++ b)
      else none
    | _, _ => none

/-- The number of zeros at the front. -/
def zeros (words : List Nat) : Nat := (words.takeWhile (· == 0)).length

/-- Where the longest run of at least two zeros begins, and its length. -/
def longestZeros (words : List Nat) : Nat × Nat :=
  (List.range words.length).foldl
    (fun best i => if max 1 best.2 < zeros (words.drop i) then (i, zeros (words.drop i)) else best)
    (0, 0)

/-- Words in hexadecimal between colons. -/
def colonWords (words : List Nat) : List Char :=
  List.intercalate [':'] (words.map (Nat.toDigits 16))

/-- The text of eight words. The longest run of zeros is left out. -/
def ipv6Text (words : List Nat) : List Char :=
  let (i, n) := longestZeros words
  if n = 0 then colonWords words
  else colonWords (words.take i) ++ [':', ':'] ++ colonWords (words.drop (i + n))

/-! ## Hosts -/

/-- A character that separates the parts of an address. -/
def isSeparator (c : Char) : Bool :=
  ['\x00', '\t', '\n', '\r', ' ', '#', '/', ':', '<', '>', '?', '@', '[', '\\', ']', '^',
    '|'].contains c

/-- A character that no name of a host has. -/
def isForbidden (c : Char) : Bool :=
  c.toNat < 0x20 || c == '%' || c == '\x7f' || isSeparator c

/-- Eight words within brackets. -/
def bracketed (s : List Char) : Except UrlError (List Char) :=
  match if s.getLast? = some ']' then ipv6? (s.drop 1).dropLast else none with
  | some words => .ok ('[' :: ipv6Text words ++ [']'])
  | none => .error .invalidIpv6

/-- The host of an address of a special scheme. -/
def specialHost (s : List Char) : Except UrlError (List Char) :=
  match Text.percentDecoded? s with
  | none => .error .invalidName
  | some decoded =>
    let name := decoded.map Char.toLower
    if name.any isForbidden then .error .invalidName
    else if name = [] then .error .emptyHost
    else if endsInNumber name then
      match ipv4? name with
      | some text => .ok text
      | none => .error .invalidIpv4
    else .ok name

/-- The host of an address of another scheme. -/
def otherHost (s : List Char) : Except UrlError (List Char) :=
  if s.any isSeparator then .error .invalidCharacter
  else .ok (Text.percentEncoded (fun _ => false) s)

/-- **The host of a text.** -/
def host? (special : Bool) (s : List Char) : Except UrlError (List Char) :=
  if s.head? = some '[' then bracketed s else if special then specialHost s else otherHost s

end Reconfig.Url
