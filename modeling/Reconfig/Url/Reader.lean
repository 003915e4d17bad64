import Reconfig.Url.Host

/-!
# Reading addresses

A text is an address of its own if it begins with a scheme. Else it is relative to another one and
takes from it what it leaves out.

* `isQueryMark` and the like: the characters that are encoded in each part;
* `splitTail`, `authority`, `segments`: the parts of a text;
* `Url.relative`: a text without a scheme;
* **`Url.read`**, **`Url.join`**: the address of a text, on its own or relative to another one.
-/

namespace Reconfig.Url

/-! ## Characters -/

/-- A character that is encoded in a fragment. -/
def isFragmentMark (c : Char) : Bool := [' ', '\x22', '<', '>', '\x60'].contains c

/-- A character that is encoded in a path. -/
def isPathMark (c : Char) : Bool := isFragmentMark c || ['#', '?', '{', '}'].contains c

/-- A character that is encoded in the name of a user. -/
def isUserMark (c : Char) : Bool :=
  isPathMark c || ['/', ':', ';', '=', '@', '[', '\\', ']', '^', '|'].contains c

/-- A character that is encoded in a query. -/
def isQueryMark (special : Bool) (c : Char) : Bool :=
  [' ', '\x22', '#', '<', '>'].contains c || (special && c == '\'')

/-- A control character or a space. They do not count at the ends of an address. -/
def isPadding (c : Char) : Bool := c.toNat ≤ 0x20

/-- The text that counts: without padding, and without tabs and line breaks anywhere. -/
def significant (s : List Char) : List Char :=
  let s := ((s.dropWhile isPadding).reverse.dropWhile isPadding).reverse
  s.filter fun c => !(c == '\t' || c == '\n' || c == '\r')

/-- A slash, or a backslash where it counts as one. -/
def isSlash (special : Bool) (c : Char) : Bool := c == '/' || (special && c == '\\')

/-! ## Parts -/

/-- The scheme at the front of a text, in small letters, and the text behind its colon. -/
def scheme? (s : List Char) : Option (String × List Char) :=
  let isSchemeChar := fun c : Char => c.isAlphanum || c == '+' || c == '-' || c == '.'
  if s.head?.any Char.isAlpha then
    match s.dropWhile isSchemeChar with
    | ':' :: rest => some (String.ofList ((s.takeWhile isSchemeChar).map Char.toLower), rest)
    | _ => none
  else none

/-- The text before a query and a fragment, and both of them encoded. -/
def splitTail (special : Bool) (s : List Char) :
    List Char × Option (List Char) × Option (List Char) :=
  let (s, fragment?) :=
    match Text.splitFirst? '#' s with
    | some (before, after) => (before, some (Text.percentEncoded isFragmentMark after))
    | none => (s, none)
  match Text.splitFirst? '?' s with
  | some (before, after) =>
    (before, some (Text.percentEncoded (isQueryMark special) after), fragment?)
  | none => (s, none, fragment?)

/-- A segment that names the directory itself. -/
def isSingleDot (s : List Char) : Bool :=
  ["." , "%2e"].contains (String.ofList (s.map Char.toLower))

/-- A segment that names the directory above. -/
def isDoubleDot (s : List Char) : Bool :=
  ["..", ".%2e", "%2e.", "%2e%2e"].contains (String.ofList (s.map Char.toLower))

/-- Segments behind others, which are in reverse. Segments of dots lead nowhere or back. -/
def walk (before : List (List Char)) : List (List Char) → List (List Char)
  | [] => before.reverse
  | [s] =>
    if isDoubleDot s then ([] :: before.drop 1).reverse
    else if isSingleDot s then ([] :: before).reverse
    else (s :: before).reverse
  | s :: rest =>
    if isDoubleDot s then walk (before.drop 1) rest
    else if isSingleDot s then walk before rest
    else walk (s :: before) rest

/-- The segments of a path behind others, which are in reverse. -/
def segments (special : Bool) (before : List (List Char)) (s : List Char) : Path :=
  let s := if special then s.map fun c => if c = '\\' then '/' else c else s
  .segments (walk before ((Text.pieces '/' s).map (Text.percentEncoded isPathMark)))

/-- The path behind an authority. -/
def pathAfterAuthority (special : Bool) (s : List Char) : Path :=
  match s with
  | [] => .segments (if special then [[]] else [])
  | c :: rest => segments special [] (if isSlash special c then rest else c :: rest)

/-- The port behind a host; none if it need not be written. -/
def port (scheme : String) (s : List Char) : Except UrlError (List Char) :=
  if s = [] then .ok []
  else
    match if s.all Char.isDigit then Numeral.natural? 10 s else none with
    | some n =>
      if 65535 < n then .error .invalidPort
      else if defaultPort? scheme = some n then .ok []
      else .ok (':' :: Nat.toDigits 10 n)
    | none => .error .invalidPort

/-- The texts before and after the colon between a host and a port. A colon within brackets belongs
to the host. -/
def splitPort (bracketed : Bool) : List Char → List Char × Option (List Char)
  | [] => ([], none)
  | c :: rest =>
    if c = ':' ∧ bracketed = false then ([], some rest)
    else
      let (host, port?) := splitPort (c == '[' || (bracketed && c != ']')) rest
      (c :: host, port?)

/-- The texts before and after the last occurrence of a character. -/
def splitLast? (mark : Char) (s : List Char) : Option (List Char × List Char) :=
  (Text.splitFirst? mark s.reverse).map fun (after, before) => (before.reverse, after.reverse)

/-- The user at the front of an authority: a name, maybe with a password, encoded. -/
def user (s : List Char) : List Char :=
  let encode := Text.percentEncoded isUserMark
  match Text.splitFirst? ':' s with
  | some (name, []) => if name = [] then [] else encode name ++ ['@']
  | some (name, word) => encode name ++ ':' :: encode word ++ ['@']
  | none => if s = [] then [] else encode s ++ ['@']

/-- An authority. -/
def authority (scheme : String) (s : List Char) : Except UrlError (List Char) :=
  let (user, rest) :=
    match splitLast? '@' s with
    | some (before, after) => (user before, after)
    | none => ([], s)
  let (hostText, port?) := splitPort false rest
  if hostText = [] ∧ (port?.isSome ∨ isSpecial scheme = true ∨ user ≠ [] ∨ s ≠ rest) then
    .error .emptyHost
  else
    match host? (isSpecial scheme) hostText with
    | .error e => .error e
    | .ok host =>
      (port scheme (port?.getD [])).map fun port => user ++ host ++ port

/-- The address behind two slashes. -/
def afterSlashes (scheme : String) (s : List Char) : Except UrlError Url :=
  let special := isSpecial scheme
  let (before, query?, fragment?) := splitTail special s
  let written := before.takeWhile fun c => !isSlash special c
  let path := before.dropWhile fun c => !isSlash special c
  (authority scheme written).map fun a =>
    ⟨scheme, some a, pathAfterAuthority special path, query?, fragment?⟩

/-! ## Relative addresses -/

/-- The segments of an address in reverse, without the last one. -/
def directory (base : Url) : List (List Char) :=
  match base.path with
  | .segments list => list.reverse.drop 1
  | .flat _ => []

/-- A text without a scheme, relative to an address with segments. -/
def relative (base : Url) (s : List Char) : Except UrlError Url :=
  let special := isSpecial base.scheme
  let (before, query?, fragment?) := splitTail special s
  match before with
  | [] =>
    .ok { base with
      query? := if query?.isSome then query? else base.query?
      fragment? := fragment? }
  | c :: rest =>
    if c = '/' ∨ c = '\\' then
      match rest with
      | d :: more =>
        if d = '/' ∨ d = '\\' then
          afterSlashes base.scheme
            (if special then (s.drop 2).dropWhile fun c => c == '/' || c == '\\' else s.drop 2)
        else .ok { base with
          path := segments special [] (d :: more), query? := query?, fragment? := fragment? }
      | [] => .ok { base with path := .segments [[]], query? := query?, fragment? := fragment? }
    else
      .ok { base with
        path := segments special base.directory before, query? := query?, fragment? := fragment? }

/-! ## Addresses -/

/-- A host in an address of a file; the local one need not be written. -/
def fileHost (s : List Char) : Except UrlError (List Char) :=
  if s = [] then .ok []
  else (host? true s).map fun host => if host = "localhost".toList then [] else host

/-- An address of a file behind its scheme. -/
def file (base? : Option Url) (s : List Char) : Except UrlError Url :=
  match s with
  | a :: b :: rest =>
    if isSlash true a && isSlash true b then
      let (before, query?, fragment?) := splitTail true rest
      (fileHost (before.takeWhile fun c => !isSlash true c)).map fun host =>
        ⟨fileScheme, some host,
          pathAfterAuthority true (before.dropWhile fun c => !isSlash true c), query?, fragment?⟩
    else relative (base?.getD ⟨fileScheme, some [], .segments [[]], none, none⟩) s
  | s => relative (base?.getD ⟨fileScheme, some [], .segments [[]], none, none⟩) s

/-- An address behind a scheme without rules of its own. -/
def other (scheme : String) (s : List Char) : Except UrlError Url :=
  match s with
  | '/' :: '/' :: rest => afterSlashes scheme rest
  | _ =>
    let (before, query?, fragment?) := splitTail false s
    let path :=
      match before with
      | '/' :: rest => segments false [] rest
      | before => .flat (Text.percentEncoded (fun _ => false) before)
    .ok ⟨scheme, none, path, query?, fragment?⟩

/-- An address behind its scheme. One of the scheme of the base may be relative to it. -/
def withScheme (base? : Option Url) (scheme : String) (s : List Char) : Except UrlError Url :=
  let sameBase? := base?.filter fun base => base.scheme == scheme
  if scheme = fileScheme then file sameBase? s
  else if isSpecial scheme then
    match sameBase? with
    | some base =>
      if (s.takeWhile (isSlash true)).length < 2 then relative base s
      else afterSlashes scheme (s.dropWhile (isSlash true))
    | none => afterSlashes scheme (s.dropWhile (isSlash true))
  else other scheme s

/-- The address of a text, maybe relative to another one. -/
def readFrom (base? : Option Url) (text : String) : Except UrlError Url :=
  let s := significant text.toList
  match scheme? s, base? with
  | some (scheme, rest), base? => withScheme base? scheme rest
  | none, none => .error .withoutBase
  | none, some base =>
    match s with
    | '#' :: rest =>
      .ok { base with fragment? := some (Text.percentEncoded isFragmentMark rest) }
    | s =>
      if base.isFlat then .error .flatBase
      else if base.scheme = fileScheme then file (some base) s
      else relative base s

/-- **The address of a text.** -/
def read (text : String) : Except UrlError Url := readFrom none text

/-- **The address of a text that may be relative to another one.** -/
def join (base : Url) (text : String) : Except UrlError Url := readFrom (some base) text

example : (read "HTTP://E.X:80/a/../b?c#d").toOption.map text = some "http://e.x/b?c#d" := by
  decide +kernel
example : (read "a").toOption.isNone = true := by decide +kernel

end Reconfig.Url
