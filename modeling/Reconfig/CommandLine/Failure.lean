import Reconfig.Plan

/-!
# Failures and their causes

A failure is shown with the chain of its causes, from what was attempted down to what went wrong.

* `causes`: the chain of an error of each kind;
* `Failure`, **`Failure.render`**: how a chain is shown.
-/

namespace Reconfig

/-- The chain of an error in reading settings. -/
def SettingsError.causes : SettingsError → List String
  | .io path cause => [SettingsError.message (.io path cause), cause.message]
  | .parse => [SettingsError.message .parse, "malformed settings"]

/-- The chain of an error in reading a configuration. -/
def TreeError.causes (e : TreeError) : List String :=
  match e with
  | .invalidJson => [e.message, "malformed document"]
  | .invalidYaml => [e.message, "malformed document"]
  | _ => [e.message]

/-- The chain of an error in using schemas. -/
def SchemaError.causes (e : SchemaError) : List String :=
  match e with
  | .io _ cause => [e.message, cause.message]
  | .parse _ => [e.message, "malformed document"]
  | _ => [e.message]

/-- The chain of an error in compiling changes. -/
def CompileError.causes (e : CompileError) : List String :=
  match e with
  | .info cause => [e.message, cause.message]
  | _ => [e.message]

/-- The chain of an error in planning. -/
def ReconcileError.causes (e : ReconcileError) : List String :=
  e.message ::
    match e with
    | .settings cause => cause.causes
    | .missingSchemaDirectory => []
    | .tree cause => cause.causes
    | .schema cause => cause.causes
    | .diff cause => cause.causes
    | .compile cause => cause.causes

namespace CommandLine

/-- What was attempted, followed by its causes. -/
structure Failure where
  /-- The failure as a whole. -/
  summary : String
  /-- Its causes, each the cause of the one before. -/
  causes : List String

namespace Failure

/-- The failure of a chain. -/
def ofCauses : List String → Failure
  | [] => ⟨"", []⟩
  | summary :: causes => ⟨summary, causes⟩

/-- Lines of which all but the first are indented. -/
def indented (depth : Nat) (s : String) : String :=
  String.ofList (s.toList.flatMap fun c =>
    if c = '\n' then '\n' :: List.replicate depth ' ' else [c])

/-- A text with a number in front, right-aligned to five places. -/
def numbered (n : Nat) (s : String) : String :=
  let digits := Nat.toDigits 10 n
  String.ofList (List.replicate (5 - digits.length) ' ' ++ digits) ++ ": " ++ indented 7 s

/-- Causes on lines of their own: a single one indented, several numbered. -/
def causeLines : List String → List String
  | [] => []
  | [cause] => ["    " ++ indented 4 cause]
  | causes => causes.mapIdx numbered

/-- **A failure as it is shown.** -/
def render (f : Failure) : String :=
  let heading := if f.causes.isEmpty then [] else ["", "Caused by:"]
  "\n".intercalate (("Error: " ++ f.summary) :: (heading ++ causeLines f.causes)) ++ "\n"

end Failure

end CommandLine

end Reconfig
