import Reconfig.Schema.Reader
import Reconfig.Schema.Standard
import Reconfig.Text.Utf8

/-!
# What references in a schema name

A reference is an address. Its document is the schema as a whole or a part that has an address of
its own; its fragment is a way within the document, or belongs to the address of a part.

* `startScope`: the address of a schema that has none;
* `Library`, `Library.ofDocument`: the documents of a schema;
* **`Library.resolve`**: the part that a reference names, with the address to which addresses in it
  are relative.
-/

namespace Reconfig.Schema

/-- The address of a schema that gives itself none. -/
def startScope : Url := ⟨"json-schema", some [], .segments [[]], none, none⟩

/-- Names under which no schemas are looked for. -/
def hiddenNames : List String := ["enum", "const"]

mutual

/-- The parts of a document that have an address of their own, in the order of the document. -/
def addressed (scope : Url) : Json → Except UrlError (List (String × Json))
  | .array list => addressedItems scope list
  | .object members =>
    match identifier? members with
    | none => addressedMembers scope members
    | some id =>
      match scope.join id with
      | .error e => .error e
      | .ok u =>
        (addressedMembers u.withoutEmptyFragment members).map fun l =>
          (u.withoutEmptyFragment.text, .object members) :: l
  | _ => .ok []

/-- The parts of the items of an array. -/
def addressedItems (scope : Url) : List Json → Except UrlError (List (String × Json))
  | [] => .ok []
  | j :: rest =>
    match addressed scope j with
    | .error e => .error e
    | .ok l => (addressedItems scope rest).map fun more => l ++ more

/-- The parts of the members of an object. -/
def addressedMembers (scope : Url) : List (String × Json) → Except UrlError (List (String × Json))
  | [] => .ok []
  | (name, j) :: rest =>
    match if hiddenNames.contains name then .ok [] else addressed scope j with
    | .error e => .error e
    | .ok l => (addressedMembers scope rest).map fun more => l ++ more

end

/-- The documents of a schema. -/
structure Library where
  /-- The address of the schema. -/
  scope : Url
  /-- The schema. -/
  root : Json
  /-- Its parts by their addresses; of two with one address the first one counts. -/
  parts : List (String × Json)

namespace Library

/-- The documents of a schema; fails if a text in it that should be an address is none. -/
def ofDocument (document : Json) : Except UrlError Library := do
  let scope ←
    match identifier? (match document with | .object members => members | _ => []) with
    | some id => Url.read id
    | none => .ok startScope
  let parts ← addressed scope document
  .ok ⟨scope, document, parts.reverse⟩

/-- The document of an address without fragment; the schema of schemas is always there. -/
def document? (l : Library) (address : Url) : Option Json :=
  if address = startScope then some l.root
  else
    match l.parts.lookup address.text with
    | some j => some j
    | none => if address.text = standardAddress then some standard else none

/-- The address to which addresses are relative behind objects on a way. The first object that has
an address does not count. -/
def scopeBehind (address : Url) (objects : List Json) : Except UrlError Url :=
  let ids := objects.filterMap fun j =>
    match j with
    | .object members => identifier? members
    | _ => none
  (ids.drop 1).foldlM Url.join address

/-- The part of a document at the end of a way. -/
def partAt (target : Url) (document : Json) (way : List Char) : Except Issue (Url × Json) :=
  if way = [] then .ok (target.withoutFragment, document)
  else
    match Place.steps? way with
    | none => .error (.ofSchema (.danglingReference target))
    | some steps =>
      match document.at? steps with
      | none => .error (.ofSchema (.danglingReference target))
      | some j =>
        match scopeBehind target.withoutFragment (document.above steps) with
        | .ok scope => .ok (scope, j)
        | .error e => .error (.ofSchema (.badAddress e))

/-- **The part that a reference names.** -/
def resolve (l : Library) (target : Url) : Except Issue (Url × Json) :=
  let bytes := Text.percentBytes (target.fragment?.getD [])
  match Utf8.fault? bytes with
  | some f => .error (.ofSchema (.badReference f))
  | none =>
    match l.parts.lookup target.text with
    | some j => .ok (target.withoutFragment, j)
    | none =>
      match l.document? target.withoutFragment with
      | none => .error (.ofSchema (.unknownDocument target.withoutFragment))
      | some document =>
        partAt target document ((Text.percentDecoded? (target.fragment?.getD [])).getD [])

end Library

end Reconfig.Schema
