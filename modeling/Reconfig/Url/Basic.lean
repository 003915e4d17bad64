import Reconfig.Text.Percent

/-!
# Addresses

An address names a document, and maybe a place in it. It has a scheme, maybe an authority, a path,
maybe a query and maybe a fragment. The path is a list of segments, or one text for schemes
without a hierarchy.

* `UrlError`, `UrlError.message`: why a text is no address;
* `Url`, `Url.text`; `Url.withoutFragment`;
* `Url.isSpecial`, `Url.defaultPort?`: the schemes with rules of their own.
-/

namespace Reconfig

/-- Why a text is no address. -/
inductive UrlError where
  /-- The host is missing. -/
  | emptyHost
  /-- The host holds characters that no name has. -/
  | invalidName
  /-- The port is not a number of 16 bits. -/
  | invalidPort
  /-- A numeric host is not four bytes. -/
  | invalidIpv4
  /-- A host between brackets is not eight words. -/
  | invalidIpv6
  /-- A host without rules of its own holds characters that separate. -/
  | invalidCharacter
  /-- A relative address has nothing to be relative to. -/
  | withoutBase
  /-- A relative address is relative to one without a hierarchy. -/
  | flatBase
  deriving DecidableEq, Repr

/-- The wording of an error. -/
def UrlError.message : UrlError → String
  | .emptyHost => "empty host"
  | .invalidName => "invalid international domain name"
  | .invalidPort => "invalid port number"
  | .invalidIpv4 => "invalid IPv4 address"
  | .invalidIpv6 => "invalid IPv6 address"
  | .invalidCharacter => "invalid domain character"
  | .withoutBase => "relative URL without a base"
  | .flatBase => "relative URL with a cannot-be-a-base base"

/-- The path of an address. -/
inductive Url.Path where
  /-- Segments, each behind a slash. -/
  | segments (list : List (List Char))
  /-- One text. -/
  | flat (text : List Char)
  deriving DecidableEq

/-- An address. All parts are kept as they are written in its text. -/
structure Url where
  /-- The scheme. -/
  scheme : String
  /-- The host with the port and the user. -/
  authority? : Option (List Char)
  /-- The path. -/
  path : Url.Path
  /-- The query. -/
  query? : Option (List Char)
  /-- The place in the document. -/
  fragment? : Option (List Char)
  deriving DecidableEq

namespace Url

/-- The text of a path. Two slashes at the beginning would begin an authority. -/
def Path.text (hasAuthority : Bool) : Path → List Char
  | .segments [] => []
  | .segments ([] :: rest) =>
    (if !hasAuthority && !rest.isEmpty then ['/', '.', '/'] else ['/']) ++
      rest.flatMap ('/' :: ·)
  | .segments list => list.flatMap ('/' :: ·)
  | .flat text => text

/-- A part with a mark before it, if the part is there. -/
def marked (mark : List Char) (part? : Option (List Char)) : List Char :=
  match part? with
  | some part => mark ++ part
  | none => []

/-- **The text of an address.** -/
def text (u : Url) : String :=
  u.scheme ++ ":" ++ String.ofList
    (marked ['/', '/'] u.authority? ++ u.path.text u.authority?.isSome ++ marked ['?'] u.query? ++
      marked ['#'] u.fragment?)

/-- The address of the document alone. -/
def withoutFragment (u : Url) : Url := { u with fragment? := none }

/-- An empty fragment names the document alone. -/
def withoutEmptyFragment (u : Url) : Url :=
  if u.fragment? = some [] then u.withoutFragment else u

/-- The path is one text. -/
def isFlat (u : Url) : Bool :=
  match u.path with
  | .flat _ => true
  | .segments _ => false

/-- The scheme for files. -/
def fileScheme : String := "file"

/-- The schemes that name a host, with the ports that need not be written. -/
def ports : List (String × Nat) :=
  [("ftp", 21), ("http", 80), ("https", 443), ("ws", 80), ("wss", 443)]

/-- The port that need not be written. -/
def defaultPort? (scheme : String) : Option Nat := ports.lookup scheme

/-- Addresses of the scheme always have a host and a path, and may be written with backslashes. -/
def isSpecial (scheme : String) : Bool :=
  scheme == fileScheme || (defaultPort? scheme).isSome

end Url

end Reconfig
