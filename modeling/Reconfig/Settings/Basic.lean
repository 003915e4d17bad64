import Reconfig.Diff.Report
import Reconfig.Files

/-!
# Settings

How a reconciliation is carried out: where the schemas are, whether desired configurations are
checked first, and what a comparison leaves out.

* `Settings`, `Settings.diffOptions`;
* `SettingsError`, `SettingsError.message`.
-/

namespace Reconfig

/-- How a reconciliation is carried out. -/
structure Settings where
  /-- The directory of the schemas. -/
  schemaDirectory? : Option String := none
  /-- A desired configuration has to satisfy its schema. -/
  validateDesired : Bool := true
  /-- A comparison leaves out what describes a single node. -/
  skipNodeSpecific : Bool := true
  /-- Which messages the program logs. -/
  logFilter : String := "info"
  deriving DecidableEq

/-- What a comparison leaves out. -/
def Settings.diffOptions (s : Settings) : DiffOptions := ⟨s.skipNodeSpecific⟩

/-- Why there are no settings. -/
inductive SettingsError where
  /-- The file cannot be read. -/
  | io (path : String) (cause : FileError)
  /-- The text does not denote settings. -/
  | parse
  deriving DecidableEq, Repr

/-- The wording of an error. -/
def SettingsError.message : SettingsError → String
  | .io path cause => "cannot read configuration " ++ path ++ ": " ++ cause.message
  | .parse => "invalid configuration: " ++ "malformed settings"

end Reconfig
