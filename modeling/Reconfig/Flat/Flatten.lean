import Reconfig.Tree.Basic
import Reconfig.Key.Text
import Reconfig.Dict

/-!
# Flat configurations

A flat configuration maps keys to values. A tree is flattened by joining the names of enclosing
fields; a list of sections becomes one instance per section, selected by its identity, with a
marker for its position in the list.

* `FlatConfig`, `Key.join`;
* `identities?`: the identities of a list of sections, if they can be told apart;
* `Tree.entries`, **`Tree.flatten`**;
* `withoutIndexMarkers`.

A list whose sections cannot be told apart is kept whole under its own key. A bare text at a
section that is identified by its type stands for that type.
-/

namespace Reconfig

/-- A flattened configuration. -/
abbrev FlatConfig : Type := Dict Value

/-- The key of a field under a base key; under the empty key it is the field's name. -/
def Key.join (base field : String) : String :=
  if base.isEmpty then field else base ++ "." ++ field

/-- The key of an instance under the key of its list. -/
def Key.instanceKey (list id : String) : String := list ++ ".\x7b" ++ id ++ "\x7d"

/-- The text holds no brace. -/
def isBraceFree (s : String) : Bool := s.toList.all fun c => c != '{' && c != '}'

/-- The identities of sections, if each has one, without braces, and no two are equal. -/
def identities? (sections : List Tree) : Option (List String) :=
  match sections.mapM Tree.identity? with
  | some ids => if ids.all isBraceFree ∧ ids.Nodup then some ids else none
  | none => none

/-- The marker of a position. -/
def indexValue (n : Nat) : Value := .scalar (.uint (UInt64.ofNat n))

mutual

/-- The entries of a value at a key, as the value of the named field. -/
def valueEntries (key field : String) : Value → List (String × Value)
  | .scalar (.text s) =>
    if Vocabulary.isTypedSection field then [(Key.join key Vocabulary.typeField, .text s)]
    else [(key, .text s)]
  | .scalar s => [(key, .scalar s)]
  | .list items => [(key, .list items)]
  | .nested fields => if fields.isEmpty then [(key, .nested [])] else fieldEntries key fields
  | .repeated sections =>
    if sections.isEmpty then []
    else if (identities? sections).isSome then sectionEntries key 0 sections
    else [(key, .repeated sections)]

/-- The entries of the fields under a base key. -/
def fieldEntries (base : String) : List (String × Value) → List (String × Value)
  | [] => []
  | (name, v) :: rest => valueEntries (Key.join base name) name v ++ fieldEntries base rest

/-- The entries of the sections of a list from a position on, each with its marker. -/
def sectionEntries (key : String) (position : Nat) :
    List (List (String × Value)) → List (String × Value)
  | [] => []
  | fields :: rest =>
    let base := Key.instanceKey key ((Tree.identity? fields).getD "")
    fieldEntries base fields ++
      (Key.join base Vocabulary.indexField, indexValue position) ::
        sectionEntries key (position + 1) rest

end

/-- The entries of a tree, before they are put in order. -/
def Tree.entries (t : Tree) : List (String × Value) := fieldEntries "" t

/-- **The flat configuration of a tree.** -/
def Tree.flatten (t : Tree) : FlatConfig := Dict.ofList t.entries

/-- A flat configuration without the markers of positions. -/
def withoutIndexMarkers (flat : FlatConfig) : FlatConfig :=
  flat.filter fun key _ => !(Path.parse key).isIndexMarker

end Reconfig
