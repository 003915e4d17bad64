import Reconfig.Text.Split

/-!
# Arguments of the command line

The first word among the arguments is a verb, and the verb decides which options and operands may
follow. An option takes a value, in the same argument behind an equals sign or in the next one, and
stands at most once; behind two dashes there are operands only.

* `Verb`, `Token`: verbs, and what one argument is;
* `Given`, `scan?`: the options and operands behind a verb;
* `Inputs`, `Request`, `Invocation`: what the arguments ask for;
* **`Invocation.parse?`**.
-/

namespace Reconfig.CommandLine

/-- What the program can be asked to do. -/
inductive Verb where
  /-- Show the keys of a configuration. -/
  | flatten
  /-- Show the release of a build. -/
  | version
  /-- Show the difference of two configurations. -/
  | diff
  /-- Show what to do with a node. -/
  | plan
  deriving DecidableEq, Repr

namespace Verb

/-- The verb of a word. -/
def ofWord? : String → Option Verb
  | "flatten" => some .flatten
  | "version" => some .version
  | "diff" => some .diff
  | "plan" => some .plan
  | _ => none

/-- The option for the file of settings, which may stand anywhere. -/
def settingsOption : String := "config"

/-- The options that a verb knows. -/
def options : Verb → List String
  | .flatten => [settingsOption]
  | .version => [settingsOption]
  | .diff => [settingsOption, "schemas", "version", "desired", "current"]
  | .plan => [settingsOption, "schemas", "version", "desired", "current", "log-sinks"]

/-- The verb takes an operand. -/
def hasOperand : Verb → Bool
  | .flatten => true
  | .version => true
  | _ => false

end Verb

/-- The options whose value is a path, which is not empty. -/
def pathOptions : List String := [Verb.settingsOption, "schemas", "desired", "current"]

/-- The option that takes no value and may be repeated. -/
def verboseOption : String := "verbose"

/-! ## Single arguments -/

/-- What one argument is. -/
inductive Token where
  /-- The two dashes before operands. -/
  | operandsFollow
  /-- An option, maybe with its value. -/
  | option (name : String) (value? : Option String)
  /-- Letters behind one dash. -/
  | letters (l : List Char)
  /-- A verb, an operand or the value of an option. -/
  | word (s : String)

/-- What an argument is. -/
def Token.of (s : String) : Token :=
  match s.toList with
  | ['-', '-'] => .operandsFollow
  | '-' :: '-' :: rest =>
    match Text.splitFirst? '=' rest with
    | some (name, value) => .option (String.ofList name) (some (String.ofList value))
    | none => .option (String.ofList rest) none
  | '-' :: c :: rest => .letters (c :: rest)
  | _ => .word s

/-- The word that an argument is. -/
def word? (s : String) : Option String :=
  match Token.of s with
  | .word w => some w
  | _ => none

/-! ## Options and operands -/

/-- The options and operands given so far. -/
structure Given where
  /-- The options with their values. -/
  options : List (String × String)
  /-- The operands. -/
  operands : List String

namespace Given

/-- Nothing is given. -/
def none : Given := ⟨[], []⟩

/-- The value of an option. -/
def value? (g : Given) (name : String) : Option String := g.options.lookup name

/-- Give an option a value, if it is among the known ones, has none yet, and admits the value. -/
def set? (g : Given) (known : List String) (name value : String) : Option Given :=
  if known.contains name && (g.value? name).isNone &&
      !(value.isEmpty && pathOptions.contains name) then
    some { g with options := (name, value) :: g.options }
  else .none

/-- Add operands. -/
def addOperands (g : Given) (words : List String) : Given :=
  { g with operands := g.operands ++ words }

end Given

/-- Letters that only ask for more messages. -/
def areVerbose (l : List Char) : Bool := l.all (· == 'v')

/-- The options and operands among arguments, up to a word if `stopAtWord` holds, and the arguments
from that word on. -/
def scan? (known : List String) (stopAtWord : Bool) (g : Given) :
    List String → Option (Given × List String)
  | [] => some (g, [])
  | a :: rest =>
    match Token.of a with
    | .operandsFollow => some (g.addOperands rest, [])
    | .letters l => if areVerbose l then scan? known stopAtWord g rest else none
    | .word w =>
      if stopAtWord then some (g, w :: rest)
      else scan? known stopAtWord (g.addOperands [w]) rest
    | .option name (some value) =>
      match g.set? known name value with
      | some g => scan? known stopAtWord g rest
      | none => none
    | .option name none =>
      if name = verboseOption then scan? known stopAtWord g rest
      else
        match rest with
        | [] => none
        | b :: rest =>
          match (word? b).bind (g.set? known name) with
          | some g => scan? known stopAtWord g rest
          | none => none

/-! ## Requests -/

/-- Two configurations of a build. -/
structure Inputs where
  /-- The directory of the schemas. -/
  schemas? : Option String
  /-- The build. -/
  build : String
  /-- The file of the desired configuration. -/
  desired : String
  /-- The file of the current configuration. -/
  current : String

/-- What is asked for. -/
inductive Request where
  /-- The keys of the configuration in a file. -/
  | flatten (file : String)
  /-- The release of a build. -/
  | version (build : String)
  /-- The difference of two configurations. -/
  | diff (inputs : Inputs)
  /-- What to do with a node; its log sinks may be known. -/
  | plan (inputs : Inputs) (logSinks? : Option String)

/-- What the arguments ask for. -/
structure Invocation where
  /-- The file of settings. -/
  settingsFile? : Option String
  /-- What is asked for. -/
  request : Request

/-- The two configurations that options name. -/
def Given.inputs? (g : Given) : Option Inputs := do
  let build ← g.value? "version"
  let desired ← g.value? "desired"
  let current ← g.value? "current"
  some ⟨g.value? "schemas", build, desired, current⟩

/-- What a verb asks for with its options and operands. -/
def Request.of? (v : Verb) (g : Given) : Option Request :=
  match v, g.operands with
  | .flatten, [file] => if file.isEmpty then none else some (.flatten file)
  | .version, [build] => some (.version build)
  | .diff, [] => g.inputs?.map .diff
  | .plan, [] => g.inputs?.map fun i => .plan i (g.value? "log-sinks")
  | _, _ => none

/-- **What arguments ask for**; none if they do not fit together. The file of settings named behind
the verb goes before one named in front of it. -/
def Invocation.parse? (arguments : List String) : Option Invocation := do
  let (before, rest) ← scan? [Verb.settingsOption] true .none arguments
  match rest with
  | [] => none
  | word :: rest =>
    let verb ← Verb.ofWord? word
    let (behind, _) ← scan? verb.options false .none rest
    let request ← Request.of? verb behind
    some ⟨(behind.value? Verb.settingsOption).or (before.value? Verb.settingsOption), request⟩

end Reconfig.CommandLine
