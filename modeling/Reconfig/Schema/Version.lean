import Reconfig.Text.Blank
import Reconfig.Text.Digit

/-!
# Versions

A build is named by a text that starts with its release: three numbers between points, as in
`7.0.0.5-1`. All builds of one release share a schema.

* `Version.core?`: the three numbers at the front of a text;
* **`Version.release?`**: the release of a build.
-/

namespace Reconfig.Version

/-- The run of digits at the front of a text, if there is one, and the text after it. -/
def run? (s : List Char) : Option (List Char × List Char) :=
  if s.takeWhile Text.isDigit = [] then none
  else some (s.takeWhile Text.isDigit, s.dropWhile Text.isDigit)

/-- A point and a run of digits at the front of a text: the digits, and the text after them. -/
def pointRun? : List Char → Option (List Char × List Char)
  | '.' :: rest => run? rest
  | _ => none

/-- The three numbers at the front of a text. -/
def core? (s : List Char) : Option (List Char) := do
  let (major, s) ← run? s
  let (minor, s) ← pointRun? s
  let (patch, _) ← pointRun? s
  some (major ++ '.' :: (minor ++ '.' :: patch))

/-- **The release of a build**, apart from blanks around the name of the build. -/
def release? (build : String) : Option String :=
  (core? (Text.trim build.toList)).map String.ofList

example : release? " 10.12.3-rc2" = some "10.12.3" := by decide
example : release? "7.0" = none := by decide

end Reconfig.Version
