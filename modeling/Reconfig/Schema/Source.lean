import Reconfig.Schema.Registry
import Reconfig.Json.Reader

/-!
# Where schemas come from

Schemas are given as texts under the names of builds, or as the files of a directory that are named
for a build and end in `.json`.

* `readDocument`: the document of a text;
* `buildOfFile?`: the build for which a file is named;
* **`loadDirectory`**: the documents of a directory.
-/

namespace Reconfig

/-- The document of the text of a name. -/
def readDocument (name text : String) : Except SchemaError (String × Json) :=
  match Json.read? text with
  | some document => .ok (name, document)
  | none => .error (.parse name)

/-- The build for which a file is named. -/
def buildOfFile? (name : String) : Option String := Files.stem? Files.jsonEnding name

/-- The files that hold schemas, in the order of their names. -/
def schemaFiles (names : List String) : List String :=
  (TextSet.ofTexts (names.filter fun name => (buildOfFile? name).isSome)).keys

/-- The documents of the named files of a directory, up to the first that cannot be read. -/
def loadFiles {m : Type → Type} [Monad m] (files : Files m) (directory : String) :
    List String → m (Except SchemaError (List (String × Json)))
  | [] => pure (.ok [])
  | name :: rest => do
    let path := Files.join directory name
    match ← files.read path with
    | .error e => pure (.error (.io path e))
    | .ok text =>
      match readDocument ((buildOfFile? name).getD name) text with
      | .error e => pure (.error e)
      | .ok document =>
        let more ← loadFiles files directory rest
        pure (more.map (document :: ·))

/-- **The documents of a directory**, each with the build for which its file is named. -/
def loadDirectory {m : Type → Type} [Monad m] (files : Files m) (directory : String) :
    m (Except SchemaError (List (String × Json))) := do
  match ← files.list directory with
  | .error e => pure (.error (.io directory e))
  | .ok names => loadFiles files directory (schemaFiles names)

end Reconfig
