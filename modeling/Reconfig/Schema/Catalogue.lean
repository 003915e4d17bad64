import Reconfig.Tree.Document
import Reconfig.Flat.Flatten
import Reconfig.Number.Numeral
import Reconfig.Text.Split

/-!
# What a schema says about configuration keys

A schema annotates the fields that it describes: with the value that holds when the field is not
configured, with whether the field may change on a running node, and with the fields that a
section requires. A catalogue lists these facts by logical key.

The document is taken apart into leaves under paths: the names of members and the positions of
items, joined by points. The value of an annotation is one leaf. A path less its last name denotes
a logical key: the names of fields remain, and the keywords of the schema drop out.

* `leaves`: the leaves of a document; `logicalKey`, `Leaf.ofPath`;
* `defaultValue?`: the configuration value that a default denotes; `agreed?`;
* `Catalogue`, **`Catalogue.ofDocument`**.
-/

namespace Reconfig

namespace Catalogue

/-! ## Leaves -/

/-- The keywords whose value is kept whole. -/
def annotations : List String := ["default", "dynamic", "required", "enum"]

/-- The keyword whose members are fields. -/
def fieldsKeyword : String := "properties"

mutual

/-- The leaves of a document at a path; `named` holds if its members are fields. -/
def leavesAt (path : String) (named : Bool) : Json → List (String × Json)
  | .object members => memberLeaves path named members
  | .array items => itemLeaves path 0 items
  | leaf => [(path, leaf)]

/-- The leaves of the members of an object. -/
def memberLeaves (path : String) (named : Bool) : List (String × Json) → List (String × Json)
  | [] => []
  | (name, j) :: rest =>
    (if !named && annotations.contains name then [(Key.join path name, j)]
      else leavesAt (Key.join path name) (!named && name == fieldsKeyword) j) ++
      memberLeaves path named rest

/-- The leaves of the items of an array from a position on. -/
def itemLeaves (path : String) (position : Nat) : List Json → List (String × Json)
  | [] => []
  | j :: rest =>
    leavesAt (Key.join path (toString position)) false j ++ itemLeaves path (position + 1) rest

end

/-- The leaves of a document by their paths. Where two have one path, the later one counts. -/
def leaves (document : Json) : Dict Json := .ofList (leavesAt "" false document)

/-! ## Logical keys -/

/-- A name on a path that stands for the structure of the schema and names no field. -/
def isStructural (name : List Char) : Bool :=
  name == "items".toList || name == "oneOf".toList || name == "anyOf".toList ||
    Numeral.isIndex name

/-- The names of fields among the names of a path; `named` holds right after the keyword whose
members are fields. -/
def fieldNames : (named : Bool) → List (List Char) → List (List Char)
  | _, [] => []
  | true, name :: rest => name :: fieldNames false rest
  | false, name :: rest =>
    if name = fieldsKeyword.toList then fieldNames true rest
    else if isStructural name then fieldNames false rest
    else name :: fieldNames false rest

/-- The logical key that the names of a path denote. -/
def logicalKey (names : List (List Char)) : String :=
  String.ofList (List.intercalate ['.'] (fieldNames false names))

/-- A leaf as a statement about a configuration key. -/
structure Leaf where
  /-- The logical key. -/
  key : String
  /-- The keyword whose value the leaf is. -/
  keyword : String
  /-- The value. -/
  value : Json

/-- The statement that a leaf at a path makes. -/
def Leaf.ofPath (path : String) (value : Json) : Leaf :=
  let names := Text.pieces '.' path.toList
  ⟨logicalKey names.dropLast, String.ofList (names.getLastD []), value⟩

/-- The statements of a document. -/
def statements (document : Json) : List Leaf :=
  (leaves document).entries.map fun e => .ofPath e.1 e.2

/-! ## Statements -/

/-- The text of an item of a default; a null, a list or an object has none. -/
def defaultItem? : Json → Option String
  | .null => none
  | j => itemText? j

/-- The configuration value that a default denotes, if it denotes one. -/
def defaultValue? : Json → Option Value
  | .null => none
  | .bool b => some (.scalar (.bool b))
  | .number n => some (.scalar (.ofNumber n))
  | .string s => some (.text s)
  | .array items => (items.mapM defaultItem?).map .list
  | .object members => (Tree.ofJson (.object members)).toOption.map .nested

/-- The key and the value of a default. -/
def default? (l : Leaf) : Option (String × Value) :=
  if l.keyword = "default" then (defaultValue? l.value).map (l.key, ·) else none

/-- The key that may change on a running node. -/
def dynamic? (l : Leaf) : Option String :=
  if l.keyword = "dynamic" ∧ l.value.isBool true then some l.key else none

/-- A set of required fields with the section that requires them. -/
def required? (l : Leaf) : Option (String × List String) :=
  match l.value with
  | .array items =>
    if l.keyword = "required" then some (l.key, items.filterMap Json.string?) else none
  | _ => none

/-- The value on which the branches of a schema agree. -/
def agreed? : List Value → Option Value
  | [] => none
  | v :: rest => if rest.all fun w => v.same w then some v else none

end Catalogue

/-- What a schema says about configuration keys. -/
structure Catalogue where
  /-- The values of keys that are not configured, where the branches of the schema agree. -/
  defaults : Dict Value
  /-- The keys that may change on a running node. -/
  dynamic : TextSet
  /-- The sets of required fields of each section; one of them has to be complete. -/
  required : Dict (List (List String))

/-- **What a schema document says about configuration keys.** -/
def Catalogue.ofDocument (document : Json) : Catalogue :=
  let all := statements document
  { defaults := (Dict.gather (all.filterMap default?)).filterMap fun _ values => agreed? values
    dynamic := .ofTexts (all.filterMap dynamic?)
    required := .gather (all.filterMap required?) }

end Reconfig
