import Reconfig.Schema.Source
import Reconfig.Settings.Basic
import Reconfig.Diff.Liveness
import Reconfig.Command.Compile

/-!
# Plans

A plan answers what to do with a node whose configuration is not the desired one: which commands to
send to it, or that it has to be restarted, and for which keys.

* `Registry.diff`, `Registry.rejected`: the difference, and what needs a restart, for a build;
* `ReconcileError`, `ReconcileError.message`;
* `Plan`; `Reconciler`, `Reconciler.ofSettings`, `Reconciler.diff`, **`Reconciler.plan`**.
-/

namespace Reconfig

/-! ## Builds -/

namespace Registry

/-- The difference of two configurations of a build. -/
def diff (r : Registry) (build : String) (desired current : FlatConfig) (options : DiffOptions) :
    Except SchemaError DiffReport :=
  (r.catalogue build).map fun c => Reconfig.diff desired current c.defaults options

/-- The changes that turn one configuration of a build into another. -/
def changes (r : Registry) (build : String) (desired current : FlatConfig) :
    Except SchemaError ChangeSet :=
  (r.diff build desired current {}).map DiffReport.changes

/-- The keys of changes that need a restart of a build. -/
def rejected (r : Registry) (build : String) (changes : ChangeSet) :
    Except SchemaError (List String) :=
  (r.catalogue build).map fun c => changes.rejected c.dynamic

end Registry

/-! ## Errors -/

/-- Why there is no plan. -/
inductive ReconcileError where
  /-- There are no settings. -/
  | settings (cause : SettingsError)
  /-- The settings name no directory of schemas. -/
  | missingSchemaDirectory
  /-- A configuration cannot be read. -/
  | tree (cause : TreeError)
  /-- The schemas cannot be used, or the desired configuration does not satisfy its schema. -/
  | schema (cause : SchemaError)
  /-- There is no schema to compare by. -/
  | diff (cause : SchemaError)
  /-- A change has no command. -/
  | compile (cause : CompileError)

namespace ReconcileError

/-- The wording of an error. -/
def message : ReconcileError → String
  | .settings cause => "configuration error: " ++ cause.message
  | .missingSchemaDirectory => "no schema directory configured"
  | .tree cause => "model error: " ++ cause.message
  | .schema cause => "schema error: " ++ cause.message
  | .diff cause => "diff error: " ++ cause.message
  | .compile cause => "compile error: " ++ cause.message

/-- The error concerns the build alone. -/
def isVersionError : ReconcileError → Bool
  | .schema cause => cause.isVersionError
  | .diff cause => cause.isVersionError
  | _ => false

end ReconcileError

/-! ## Plans -/

/-- What to do with a node. -/
inductive Plan where
  /-- Send commands, in this order. -/
  | live (commands : List String)
  /-- Restart the node for the changes of some keys. -/
  | restart (keys : List String)
  deriving DecidableEq

namespace Plan

/-- The node need not be restarted. -/
def isLive : Plan → Bool
  | .live _ => true
  | .restart _ => false

/-- The commands to send. -/
def commands : Plan → List String
  | .live commands => commands
  | .restart _ => []

end Plan

/-- The schemas and the settings by which nodes are reconciled. -/
structure Reconciler where
  /-- The schemas. -/
  registry : Registry
  /-- The settings. -/
  settings : Settings

namespace Reconciler

/-- Load the schemas from the directory that the settings name. -/
def ofSettings {m : Type → Type} [Monad m] (files : Files m) (s : Settings) :
    m (Except ReconcileError Reconciler) :=
  match s.schemaDirectory? with
  | none => pure (.error .missingSchemaDirectory)
  | some directory => do
    match ← loadDirectory files directory with
    | .error e => pure (.error (.schema e))
    | .ok documents =>
      match Registry.ofDocuments documents with
      | .error e => pure (.error (.schema e))
      | .ok registry => pure (.ok ⟨registry, s⟩)

variable (r : Reconciler)

/-- The desired configuration passes the check that the settings ask for. -/
def check (build : String) (desired : Tree) : Except SchemaError Unit :=
  if r.settings.validateDesired then r.registry.validate build desired else .ok ()

/-- The difference of a desired and a current configuration. -/
def diff (build : String) (desired current : Tree) : Except ReconcileError DiffReport :=
  match r.check build desired with
  | .error e => .error (.schema e)
  | .ok () =>
    match r.registry.diff build desired.flatten current.flatten r.settings.diffOptions with
    | .error e => .error (.diff e)
    | .ok report => .ok report

/-- **What to do with a node**, and what it was asked. One change that needs a restart is enough
for a restart; then nothing is compiled and nothing asked. -/
def plan (build : String) (desired current : Tree) (source? : Option InfoSource) :
    Except ReconcileError Plan × List String :=
  match r.diff build desired current with
  | .error e => (.error e, [])
  | .ok report =>
    match r.registry.rejected build report.changes with
    | .error e => (.error (.diff e), [])
    | .ok (key :: keys) => (.ok (.restart (key :: keys)), [])
    | .ok [] =>
      match report.changes.compile source? with
      | (.error e, asked) => (.error (.compile e), asked)
      | (.ok commands, asked) => (.ok (.live commands), asked)

end Reconciler

end Reconfig
