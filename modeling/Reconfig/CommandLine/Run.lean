import Reconfig.CommandLine.Arguments
import Reconfig.CommandLine.Failure
import Reconfig.Settings.Reader
import Reconfig.Tree.Text

/-!
# The command line

What the program does with its arguments and the files they name: what it writes, and the status
with which it ends.

* `Output`, `Outcome`;
* `readTree`, `readSettings`, `logSinks?`: what arguments name;
* `perform`: what a request yields;
* **`run`**.

Files are read in a fixed order, so that of several failures the first one is shown: the settings,
the schemas, the desired configuration, the current one.
-/

namespace Reconfig.CommandLine

/-- What the program writes, and its status. -/
structure Output where
  /-- The status. -/
  status : Nat
  /-- What goes to the standard output. -/
  out : String
  /-- What goes to the standard error. -/
  err : String

/-- What becomes of the arguments. -/
inductive Outcome where
  /-- They do not fit together. -/
  | refused
  /-- The program has run. -/
  | finished (o : Output)

/-- The status of a run that failed. -/
def failureStatus : Nat := 1

/-- The status of a plan that needs a restart. -/
def restartStatus : Nat := 2

/-- A text on lines of its own. -/
def lines (l : List String) : String := String.join (l.map (· ++ "\n"))

/-- A run that wrote lines to the standard output. -/
def Output.ofLines (l : List String) : Output := ⟨0, lines l, ""⟩

section Reading

variable {m : Type → Type} [Monad m]

/-- A result whose error has a chain of causes. -/
def orFail {ε α : Type} (causes : ε → List String) (r : Except ε α) : ExceptT Failure m α :=
  match r with
  | .ok a => pure a
  | .error e => throw (.ofCauses (causes e))

/-- The configuration in a file. Its name tells whether it is JSON or YAML. -/
def readTree (files : Files m) (path : String) : ExceptT Failure m Tree := do
  let text ← orFail (fun e => ["reading " ++ path, FileError.message e]) (← files.read path)
  let t :=
    if (Files.stem? Files.jsonEnding (Files.name path)).isSome then Tree.ofJsonText text
    else Tree.ofYamlText text
  orFail (fun e => ("parsing " ++ path) :: TreeError.causes e) t

/-- The settings of a text. -/
def settingsOf (text : String) : Except SettingsError Settings :=
  match Settings.read? text with
  | some s => .ok s
  | none => .error .parse

/-- The settings in a file, else the usual ones. -/
def readSettings (files : Files m) : Option String → ExceptT Failure m Settings
  | none => pure {}
  | some path => do
    let causes (e : SettingsError) := ("loading " ++ path) :: e.causes
    match ← files.read path with
    | .error e => orFail causes (.error (.io path e))
    | .ok text => orFail causes (settingsOf text)

/-- The schemas that the settings name, or a directory that goes before them. -/
def readSchemas (files : Files m) (s : Settings) (directory? : Option String) :
    ExceptT Failure m Reconciler := do
  let s := { s with schemaDirectory? := directory?.or s.schemaDirectory? }
  let loaded ← (Reconciler.ofSettings files s : m (Except ReconcileError Reconciler))
  orFail (fun e => "loading schema registry" :: ReconcileError.causes e) loaded

end Reading

/-! ## Log sinks -/

/-- A log sink, its number and its name around the first equals sign. -/
def logSink? (pair : List Char) : Except (List String) (String × String) :=
  match Text.splitFirst? '=' pair with
  | some (id, name) => .ok (String.ofList (Text.trim id), String.ofList (Text.trim name))
  | none => .error ["log sink '" ++ String.ofList pair ++ "' is not id=name"]

/-- The log sinks of a list with commas. -/
def logSinks (s : String) : Except (List String) (List (String × String)) :=
  ((Text.pieces ',' s.toList).filter fun p => !p.isEmpty).mapM logSink?

/-- A node whose log sinks are known, and enumerated in some order. -/
def nodeOf (order : Enumeration) (sinks : List (String × String)) : InfoSource :=
  .ofResponses order [(logsCommand, sinks)]

/-! ## Requests -/

/-- A key with its value. -/
def entryLine (e : String × Value) : String := e.1 ++ " = " ++ e.2.toJson.compact

/-- What a plan yields. -/
def planOutput : Plan → Output
  | .live commands => .ofLines commands
  | .restart keys =>
    ⟨restartStatus, "",
      lines (("restart required for " ++ toString keys.length ++ " key(s):") ::
        keys.map ("  " ++ ·))⟩

section Running

variable {m : Type → Type} [Monad m]

/-- What a request yields, where maps are enumerated in the given order. -/
def perform (order : Enumeration) (files : Files m) (s : Settings) :
    Request → ExceptT Failure m Output
  | .flatten file => do
    let t ← readTree files file
    pure (.ofLines ((withoutIndexMarkers t.flatten).entries.map entryLine))
  | .version build => do
    let release ← orFail SchemaError.causes (releaseOf build)
    pure (.ofLines [release])
  | .diff i => do
    let r ← readSchemas files s i.schemas?
    let desired ← readTree files i.desired
    let current ← readTree files i.current
    let report ← orFail ReconcileError.causes (r.diff i.build desired current)
    pure (.ofLines [report.changes.inOrder.pretty])
  | .plan i sinks? => do
    let r ← readSchemas files s i.schemas?
    let desired ← readTree files i.desired
    let current ← readTree files i.current
    let sinks? ← orFail id (sinks?.mapM logSinks)
    let plan ← orFail ReconcileError.causes
      (r.plan i.build desired current (sinks?.map (nodeOf order))).1
    pure (planOutput plan)

/-- **What the program does with its arguments.** -/
def run (order : Enumeration) (files : Files m) (arguments : List String) : m Outcome :=
  match Invocation.parse? arguments with
  | none => pure .refused
  | some i => do
    let result ← ExceptT.run do
      let s ← readSettings files i.settingsFile?
      perform order files s i.request
    match result with
    | .ok o => pure (.finished o)
    | .error f => pure (.finished ⟨failureStatus, "", f.render⟩)

end Running

end Reconfig.CommandLine
