import Reconfig.Tree.Basic
import Reconfig.Json.Basic
import Reconfig.Dict

/-!
# Trees and JSON documents

A tree is read from a JSON object. An array of objects is a list of sections, any other array a
list of the texts of its items; an array that mixes objects or arrays with other values is
refused. A null is the empty text.

* `TreeError`, `TreeError.message`;
* `Scalar.ofNumber`, `Value.ofJson`, **`Tree.ofJson`**;
* **`Tree.toJson`**: the document of a tree, its members in increasing order of their names;
* `Tree.inOrder`: the same with the members as they stand in the tree.
-/

namespace Reconfig

/-- Why a document is no configuration. -/
inductive TreeError where
  /-- The document is not an object, but of the named form. -/
  | notAnObject (kind : String)
  /-- The list of the named field mixes sections with other values. -/
  | mixedList (field : String)
  /-- The text is not JSON. -/
  | invalidJson
  /-- The text is not YAML. -/
  | invalidYaml
  deriving DecidableEq, Repr

/-- The wording of an error. -/
def TreeError.message : TreeError → String
  | .notAnObject kind => "configuration root must be an object, got " ++ kind
  | .mixedList field => "list '" ++ field ++ "' mixes sections with scalar values"
  | .invalidJson => "invalid JSON: " ++ "malformed document"
  | .invalidYaml => "invalid YAML: " ++ "malformed document"

/-! ## Reading -/

/-- The scalar of a number: naturals, negative integers and all others are kept apart. -/
def Scalar.ofNumber : Json.Number → Scalar
  | .natural n => .uint n
  | .negative i => .int i
  | .real x => .float x

/-- The text of an item in a list of texts; sections and lists have none. -/
def itemText? : Json → Option String
  | .null => some ""
  | .bool b => some (Scalar.bool b).render
  | .number n => some (Scalar.ofNumber n).render
  | .string s => some s
  | _ => none

/-- The texts of the items of a list. -/
def textsOf (field : String) : List Json → Except TreeError (List String)
  | [] => .ok []
  | j :: rest =>
    match itemText? j with
    | none => .error (.mixedList field)
    | some t => (textsOf field rest).map (t :: ·)

mutual

/-- The value that a document denotes as the value of the named field. -/
def Value.ofJson (field : String) : Json → Except TreeError Value
  | .null => .ok (.text "")
  | .bool b => .ok (.scalar (.bool b))
  | .number n => .ok (.scalar (.ofNumber n))
  | .string s => .ok (.text s)
  | .object members => (fieldsOfJson members).map .nested
  | .array items =>
    if items.isEmpty then
      .ok (if Vocabulary.isListSection field then .repeated [] else .list [])
    else if items.all Json.isObject then (sectionsOfJson field items).map .repeated
    else (textsOf field items).map .list

/-- The fields that the members of an object denote. -/
def fieldsOfJson : List (String × Json) → Except TreeError (List (String × Value))
  | [] => .ok []
  | (name, j) :: rest =>
    match Value.ofJson name j with
    | .error e => .error e
    | .ok v => (fieldsOfJson rest).map ((name, v) :: ·)

/-- The sections that a list of objects denotes. -/
def sectionsOfJson (field : String) :
    List Json → Except TreeError (List (List (String × Value)))
  | [] => .ok []
  | j :: rest =>
    match j with
    | .object members =>
      match fieldsOfJson members with
      | .error e => .error e
      | .ok t => (sectionsOfJson field rest).map (t :: ·)
    | _ => .error (.mixedList field)

end

/-- **The tree that a document denotes.** -/
def Tree.ofJson : Json → Except TreeError Tree
  | .object members => fieldsOfJson members
  | j => .error (.notAnObject j.kind)

/-! ## Writing -/

/-- The document of a scalar. A number without a finite value has none but null. -/
def Scalar.toJson : Scalar → Json
  | .text s => .string s
  | .bool b => .bool b
  | .int i => .number (if i.toInt < 0 then .negative i else .natural (UInt64.ofNat i.toInt.toNat))
  | .uint n => .number (.natural n)
  | .float x => if x.isFinite then .number (.real x) else .null

mutual

/-- The document of a value, the members of objects in increasing order of their names. -/
def Value.toJson : Value → Json
  | .scalar s => s.toJson
  | .list items => .array (items.map .string)
  | .nested fields => .ofDict (.ofList (membersOf fields))
  | .repeated sections => .array (objectsOf sections)

/-- The members that fields become, in the order of the fields. -/
def membersOf : List (String × Value) → List (String × Json)
  | [] => []
  | (name, v) :: rest => (name, v.toJson) :: membersOf rest

/-- The objects that sections become. -/
def objectsOf : List (List (String × Value)) → List Json
  | [] => []
  | fields :: rest => .ofDict (.ofList (membersOf fields)) :: objectsOf rest

end

/-- **The document of a tree.** -/
def Tree.toJson (t : Tree) : Json := .ofDict (.ofList (membersOf t))

mutual

/-- The document of a value, the members of objects in the order of the fields. -/
def Value.inOrder : Value → Json
  | .scalar s => s.toJson
  | .list items => .array (items.map .string)
  | .nested fields => .object (membersInOrder fields)
  | .repeated sections => .array (objectsInOrder sections)

/-- The members that fields become, every section in the order of its fields. -/
def membersInOrder : List (String × Value) → List (String × Json)
  | [] => []
  | (name, v) :: rest => (name, v.inOrder) :: membersInOrder rest

/-- The objects that sections become, every section in the order of its fields. -/
def objectsInOrder : List (List (String × Value)) → List Json
  | [] => []
  | fields :: rest => .object (membersInOrder fields) :: objectsInOrder rest

end

/-- The document of a tree, with all members in the order of the fields. -/
def Tree.inOrder (t : Tree) : Json := .object (membersInOrder t)

end Reconfig
