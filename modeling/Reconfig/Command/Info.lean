import Reconfig.Dict

/-!
# Facts only the node knows

Log sinks are addressed by numbers that only the running node knows. It is asked for them through
an information command, at most once. An answer is a map, and the order in which the entries of a
map are enumerated is arbitrary: it may be another one in another run on the same answer. So the
order is an argument here, and what does not hold for every order is not a property of the program.

* `Enumeration`: an order for the entries of every map;
* `InfoError`, `InfoSource`: a node that answers information commands;
* `InfoSource.ofResponses`, `InfoSource.failing`;
* `nodeSinkName`: the name under which the node lists a configured sink;
* `sinkIds`, `sinkId?`: the numbers of the sinks by their names;
* `Enquiry`, `Enquiry.listing`: what has been asked and answered so far.
-/

namespace Reconfig

/-! ## Answers -/

/-- An order in which the entries of maps are enumerated. -/
structure Enumeration where
  /-- The entries in their order. -/
  arrange : List (String × String) → List (String × String)
  /-- Nothing but the order is changed. -/
  perm : ∀ entries, (arrange entries).Perm entries

/-- Entries come in the order in which they are written down. -/
def Enumeration.asListed : Enumeration := ⟨id, .refl⟩

/-- Why an information command has no answer. -/
inductive InfoError where
  /-- The node refused the command. -/
  | failed (command message : String)
  /-- There is no answer to the command. -/
  | noResponse (command : String)
  deriving DecidableEq, Repr

/-- The wording of an error. -/
def InfoError.message : InfoError → String
  | .failed command message => "info command '" ++ command ++ "' failed: " ++ message
  | .noResponse command => "no response for info command '" ++ command ++ "'"

/-- A node, by its answers to information commands. An answer is a map, given by its entries in the
order in which they happen to be enumerated. -/
structure InfoSource where
  /-- The entries of the answer to a command. -/
  ask : String → Except InfoError (List (String × String))

/-- The command that lists the log sinks, the number of each with its name. -/
def logsCommand : String := "logs"

namespace InfoSource

/-- The entries of the map that is made of pairs: for each key the last value, at the first place of
the key. -/
def distinct (pairs : List (String × String)) : List (String × String) :=
  pairs.foldl (fun acc p =>
    if acc.any (fun q => q.1 == p.1) then
      acc.map fun q => if q.1 == p.1 then p else q
    else acc ++ [p]) []

/-- A node with fixed answers, their entries in some order; a later answer to the same command
counts. -/
def ofResponses (order : Enumeration) (responses : List (String × List (String × String))) :
    InfoSource where
  ask command :=
    match responses.reverse.lookup command with
    | some pairs => .ok (order.arrange (distinct pairs))
    | none => .error (.noResponse command)

/-- A node that refuses every command. -/
def failing (message : String) : InfoSource where
  ask command := .error (.failed command message)

end InfoSource

/-! ## Log sinks -/

/-- The name under which the node lists a configured sink. -/
def nodeSinkName (configured : String) : String :=
  if configured = "console" then "stderr" else configured

/-- The listing the other way round. Where a name has several numbers, it keeps the one that is
enumerated last. -/
def sinkIds (listing : List (String × String)) : Dict String :=
  .ofList (listing.map fun e => (e.2, e.1))

/-- The number that the commands to the sink of a name address. -/
def sinkId? (listing : List (String × String)) (name : String) : Option String :=
  (sinkIds listing).find? name

/-! ## Questions -/

/-- What a node has been asked so far. -/
structure Enquiry where
  /-- The node, if there is one to ask. -/
  source? : Option InfoSource
  /-- The sinks, once they are known. -/
  sinks? : Option (List (String × String))
  /-- The commands asked. -/
  asked : List String

namespace Enquiry

/-- Nothing has been asked. -/
def start (source? : Option InfoSource) : Enquiry := ⟨source?, none, []⟩

end Enquiry

end Reconfig
