import Reconfig.Schema.Version
import Reconfig.Schema.Catalogue
import Reconfig.Schema.Check
import Reconfig.Files

/-!
# The schemas of all releases

A registry holds one schema for each release. Every look-up takes the name of a build and finds the
schema of its release.

* `SchemaError`, `SchemaError.message`, `SchemaError.isVersionError`; **`releaseOf`**;
* `SchemaEntry`; `Registry`, **`Registry.ofDocuments`**, **`Registry.entry`**;
* `Catalogue.missing?`: the required fields that a section lacks;
* `Registry.defaults`, `Registry.dynamic`, `Registry.required`, `Registry.missing?`: what the schema
  says, for a build;
* `Registry.validate`: whether a configuration satisfies the schema.
-/

namespace Reconfig

/-- Why schemas cannot be used. -/
inductive SchemaError where
  /-- The name of the build does not start with a release. -/
  | versionInvalid (build : String)
  /-- There is no schema for the release. -/
  | versionUnsupported (release : String)
  /-- There are two schemas for the release. -/
  | duplicateVersion (release : String)
  /-- A configuration does not satisfy its schema. -/
  | validation (issues : List Issue)
  /-- The document for the release is no schema. -/
  | invalidSchema (release : String)
  /-- A file or a directory cannot be read. -/
  | io (path : String) (cause : FileError)
  /-- The document of that name is not JSON. -/
  | parse (name : String)

namespace SchemaError

/-- The wording of an error. -/
def message : SchemaError → String
  | .versionInvalid build => "invalid server version: '" ++ build ++ "'"
  | .versionUnsupported release => "unsupported server version: " ++ release
  | .duplicateVersion release => "schema for version " ++ release ++ " registered twice"
  | .validation issues =>
    "schema validation failed with " ++ toString issues.length ++ " issue(s): " ++
      ", ".intercalate (issues.map Issue.summary)
  | .invalidSchema release =>
    "schema for version " ++ release ++ " is not a valid JSON schema: " ++ "malformed schema"
  | .io path cause => "io error reading " ++ path ++ ": " ++ cause.message
  | .parse name => "schema " ++ name ++ " is not valid JSON: " ++ "malformed document"

/-- The error concerns the build, not the schemas or the configuration. -/
def isVersionError : SchemaError → Bool
  | .versionInvalid _ => true
  | .versionUnsupported _ => true
  | _ => false

end SchemaError

/-- **The release of a build**; a build that does not start with one is invalid. -/
def releaseOf (build : String) : Except SchemaError String :=
  match Version.release? build with
  | some release => .ok release
  | none => .error (.versionInvalid build)

/-- The schema of a release. -/
structure SchemaEntry where
  /-- The release. -/
  release : String
  /-- The document. -/
  document : Json
  /-- What the document says about configuration keys. -/
  catalogue : Catalogue

/-- The schema that a document gives a release. -/
def SchemaEntry.ofDocument (release : String) (document : Json) : SchemaEntry :=
  ⟨release, document, .ofDocument document⟩

/-! ## Required fields -/

/-- The shortest of several lists, the first of equally short ones. -/
def shortest? : List (List String) → Option (List String)
  | [] => none
  | l :: rest =>
    match shortest? rest with
    | some m => if m.length < l.length then some m else some l
    | none => some l

/-- The required fields that a section lacks to complete one of its sets: those of the set that
lacks the fewest. None if a set is complete, or if there is no set. -/
def Catalogue.missing? (c : Catalogue) (context : String) (present : TextSet) :
    Option (List String) :=
  let lacking := ((c.required.find? context).getD []).map fun set =>
    set.filter fun name => !present.contains name
  if lacking.any List.isEmpty then none else shortest? lacking

/-! ## Registries -/

/-- The schemas by release. -/
abbrev Registry : Type := Dict SchemaEntry

namespace Registry

/-- Add the schema for the release of a build. -/
def register (r : Registry) (build : String) (document : Json) : Except SchemaError Registry :=
  match releaseOf build with
  | .error e => .error e
  | .ok release =>
    if r.contains release then .error (.duplicateVersion release)
    else .ok (r.insert release (.ofDocument release document))

/-- Add schemas in turn, up to the first that cannot be added. -/
def registerAll (r : Registry) : List (String × Json) → Except SchemaError Registry
  | [] => .ok r
  | (build, document) :: rest =>
    match r.register build document with
    | .error e => .error e
    | .ok r => registerAll r rest

/-- **The registry of documents**, each with the build that it is for. -/
def ofDocuments (documents : List (String × Json)) : Except SchemaError Registry :=
  registerAll ∅ documents

/-- **The schema for a build.** -/
def entry (r : Registry) (build : String) : Except SchemaError SchemaEntry :=
  match releaseOf build with
  | .error e => .error e
  | .ok release =>
    match r.find? release with
    | some e => .ok e
    | none => .error (.versionUnsupported release)

/-- The catalogue for a build. -/
def catalogue (r : Registry) (build : String) : Except SchemaError Catalogue :=
  (r.entry build).map SchemaEntry.catalogue

/-- The defaults of a build. -/
def defaults (r : Registry) (build : String) : Except SchemaError (Dict Value) :=
  (r.catalogue build).map Catalogue.defaults

/-- The keys that may change on a running node of a build. -/
def dynamic (r : Registry) (build : String) : Except SchemaError TextSet :=
  (r.catalogue build).map Catalogue.dynamic

/-- The sets of required fields of each section of a build. -/
def required (r : Registry) (build : String) : Except SchemaError (Dict (List (List String))) :=
  (r.catalogue build).map Catalogue.required

/-- The required fields that a section of a build lacks to complete one of its sets. -/
def missing? (r : Registry) (build context : String) (present : TextSet) :
    Except SchemaError (Option (List String)) :=
  (r.catalogue build).map fun c => c.missing? context present

/-- The configuration satisfies the schema for a build. -/
def validate (r : Registry) (build : String) (t : Tree) : Except SchemaError Unit :=
  match r.entry build with
  | .error e => .error e
  | .ok e =>
    match Schema.validate? e.document t.toJson with
    | none => .error (.invalidSchema e.release)
    | some [] => .ok ()
    | some issues => .error (.validation issues)

end Registry

end Reconfig
