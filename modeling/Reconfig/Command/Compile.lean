import Reconfig.Command.Order
import Reconfig.Command.Info

/-!
# Commands

The commands by which a running node applies changes. Each context has its own form of command;
lists yield a command for each element. One change without a command refuses the whole set.

* `CompileError`, `CompileError.message`;
* `renderings`, `assignments`: the commands that set a field;
* `namespaceCommands`, `securityCommands`, `replicationCommands`, `loggingCommands`;
* `commandsFor`: the commands of one change;
* **`ChangeSet.compile`**: the commands of a set of changes, and what the node was asked.
-/

namespace Reconfig

/-- Why a change has no command. -/
inductive CompileError where
  /-- A value of that kind has no form in commands. -/
  | transformUnsupported (key kind : String)
  /-- A log sink changes, and there is no node to ask for its number. -/
  | missingInfoSource
  /-- The node does not list the sink. -/
  | unknownLogSink (name : String)
  /-- The node could not be asked. -/
  | info (cause : InfoError)
  /-- The key lacks the structure that its context requires. -/
  | malformedKey (key : String)
  deriving DecidableEq, Repr

/-- The wording of an error. -/
def CompileError.message : CompileError → String
  | .transformUnsupported key kind =>
    "cannot compile " ++ kind ++ " value of '" ++ key ++ "' into a command"
  | .missingInfoSource => "logging changes need a live info source to resolve sink ids"
  | .unknownLogSink name => "log sink '" ++ name ++ "' not found on node"
  | .info cause => "info lookup failed: " ++ cause.message
  | .malformedKey key => "malformed configuration key '" ++ key ++ "'"

/-- The commands of a change, or why it has none. -/
abbrev Compiled : Type := Except CompileError (List String)

/-! ## Values and fields -/

/-- The texts of a value in commands. -/
def renderings (key : String) (v : Value) : Compiled :=
  match v with
  | .scalar s => .ok [s.render]
  | .list items => .ok items
  | v => .error (.transformUnsupported key v.kind)

/-- The commands of operations, each value's texts turned into commands by a function. -/
def commandsOf (key : String) (command : Operation → String → Option String) :
    List (Operation × Value) → Compiled
  | [] => .ok []
  | (op, v) :: rest =>
    match renderings key v with
    | .error e => .error e
    | .ok texts =>
      match commandsOf key command rest with
      | .error e => .error e
      | .ok more => .ok (texts.filterMap (command op) ++ more)

/-- A command for every value set or element added. A removal has no command of this form. -/
def assignments (base field key : String) (change : Change) : Compiled :=
  commandsOf key
    (fun op text => if op = .remove then none else some (base ++ ";" ++ field ++ "=" ++ text))
    change.operations

/-- The names of segments that are fields, at least one. -/
def fieldNames (key : String) (segments : List Segment) : Except CompileError (List String) :=
  if segments.isEmpty then .error (.malformedKey key)
  else
    match segments.mapM Segment.field? with
    | some names => .ok names
    | none => .error (.malformedKey key)

/-- Names joined by points. -/
def dotted (names : List String) : String := ".".intercalate names

/-- The list with its last text in singular form. -/
def singularLast (names : List String) : List String :=
  names.dropLast ++ (names.getLast?.map Vocabulary.singular).toList

/-- The start of a command that sets a field in a context. -/
def setConfig (context : String) : String := "set-config:context=" ++ context

/-! ## Contexts -/

/-- Sections of a namespace whose name stays in front of their fields. -/
def typedIndexSections : List String := ["index-type", "sindex-type"]

/-- The field of a namespace in commands: its last name in singular form, after the nearest
enclosing index section. -/
def namespaceField (names : List String) : String :=
  let last := (names.getLast?.map Vocabulary.singular).getD ""
  match names.dropLast.reverse.find? fun f => typedIndexSections.contains f with
  | some section_ => section_ ++ "." ++ last
  | none => last

/-- The commands of a change at or below a namespace or one of its sets. -/
def namespaceCommands (key : String) (change : Change) (base : String) (rest : List Segment) :
    Compiled :=
  match fieldNames key rest with
  | .error e => .error e
  | .ok names =>
    if names = [Vocabulary.nameField] then .ok []
    else assignments base (namespaceField names) key change

/-- The commands of a change in the context of namespaces, by the segments after the context. -/
def namespacesCommands (key : String) (change : Change) : List Segment → Compiled
  | .selector ns :: rest =>
    let base := setConfig "namespace" ++ ";id=" ++ ns
    match rest with
    | .field list :: .selector set :: more =>
      if list = "sets" then namespaceCommands key change (base ++ ";set=" ++ set) more
      else namespaceCommands key change base rest
    | rest => namespaceCommands key change base rest
  | _ => .error (.malformedKey key)

/-- The fields that switch the audit of data operations. -/
def auditFields : List String :=
  ["log.report-data-op", "log.report-data-op-role", "log.report-data-op-user"]

/-- What an audit entry selects: a role, a user, or a namespace with an optional set. -/
def auditTarget (field value : String) : String :=
  if field = "log.report-data-op-role" then "role=" ++ value
  else if field = "log.report-data-op-user" then "user=" ++ value
  else
    let (ns, after) := value.toList.span (· != ':')
    match after with
    | [] => "namespace=" ++ value
    | _ :: set => "namespace=" ++ String.ofList ns ++ ";set=" ++ String.ofList set

/-- The commands of a change in the security context, by the segments after the context. -/
def securityCommands (key : String) (change : Change) (rest : List Segment) : Compiled :=
  match fieldNames key rest with
  | .error e => .error e
  | .ok names =>
    let field := dotted names
    let base := setConfig "security"
    if auditFields.contains field then
      commandsOf key
        (fun op text => some (base ++ ";log.report-data-op=" ++
          (if op = .remove then "false" else "true") ++ ";" ++ auditTarget field text))
        change.operations
    else assignments base field key change

/-- The commands that create and destroy a replication object. -/
def lifecycle (base create destroy : String) (change : Change) : List String :=
  (if change.has .add then [base ++ ";action=" ++ create] else []) ++
    (if change.has .remove then [base ++ ";action=" ++ destroy] else [])

/-- The commands that set a field, its last name in singular form. -/
def singularAssignments (base key : String) (change : Change) (segments : List Segment) :
    Compiled :=
  match fieldNames key segments with
  | .error e => .error e
  | .ok names => assignments base (dotted (singularLast names)) key change

/-- The field that lists the nodes of a destination. -/
def nodeAddresses : String := "node-address-ports"

/-- The commands of a change in the context of replication. -/
def replicationCommands (key : String) (change : Change) (path : Path) : Compiled :=
  let base := setConfig xdrContext
  match ReplicationPlace.of path with
  | .destination dc => .ok (lifecycle (base ++ ";dc=" ++ dc) "create" "delete" change)
  | .namespaceOf dc ns =>
    .ok (lifecycle (base ++ ";dc=" ++ dc ++ ";namespace=" ++ ns) "add" "remove" change)
  | .destinationField dc field =>
    if field = nodeAddresses then
      commandsOf key
        (fun op text => some (base ++ ";dc=" ++ dc ++ ";" ++ Vocabulary.singular field ++ "=" ++
          text ++ ";action=" ++ (if op = .remove then "remove" else "add")))
        change.operations
    else singularAssignments (base ++ ";dc=" ++ dc) key change (path.drop 3)
  | .destinationNested dc => singularAssignments (base ++ ";dc=" ++ dc) key change (path.drop 3)
  | .namespaceField dc ns =>
    singularAssignments (base ++ ";dc=" ++ dc ++ ";namespace=" ++ ns) key change (path.drop 5)
  | .root => singularAssignments base key change (path.drop 1)
  | .outside => .error (.malformedKey key)

/-! ## Log sinks -/

namespace Enquiry

/-- The sinks of the node: as they are known already, else as it answers now. -/
def listing (e : Enquiry) : Except CompileError (List (String × String)) × Enquiry :=
  match e.sinks? with
  | some sinks => (.ok sinks, e)
  | none =>
    match e.source? with
    | none => (.error .missingInfoSource, e)
    | some source =>
      let asked := e.asked ++ [logsCommand]
      match source.ask logsCommand with
      | .error cause => (.error (.info cause), ⟨e.source?, none, asked⟩)
      | .ok sinks => (.ok sinks, ⟨e.source?, some sinks, asked⟩)

end Enquiry

/-- The commands of a change to a field of a log sink. -/
def sinkCommands (key : String) (change : Change) (sink field : String)
    (sinks : List (String × String)) : Compiled :=
  let name := nodeSinkName sink
  match sinkId? sinks name with
  | some id => assignments ("log-set:id=" ++ id) field key change
  | none => .error (.unknownLogSink name)

/-- The commands of a change in the logging context, by the segments after the context. -/
def loggingCommands (e : Enquiry) (key : String) (change : Change) :
    List Segment → Compiled × Enquiry
  | [.selector sink, .field field] =>
    if field = Vocabulary.nameField then (.ok [], e)
    else
      match e.listing with
      | (.error cause, e) => (.error cause, e)
      | (.ok sinks, e) => (sinkCommands key change sink field sinks, e)
  | _ => (.error (.malformedKey key), e)

/-! ## Sets of changes -/

/-- The commands of a change in a context without a form of its own. -/
def plainCommands (context key : String) (change : Change) (rest : List Segment) : Compiled :=
  match fieldNames key rest with
  | .error e => .error e
  | .ok names => assignments (setConfig context) (dotted names) key change

/-- The commands of one change. -/
def commandsFor (e : Enquiry) (key : String) (change : Change) : Compiled × Enquiry :=
  let path := Path.parse key
  match path with
  | .field context :: rest =>
    if context = "namespaces" then (namespacesCommands key change rest, e)
    else if context = "security" then (securityCommands key change rest, e)
    else if context = "logging" then loggingCommands e key change rest
    else if context = xdrContext then (replicationCommands key change path, e)
    else (plainCommands context key change rest, e)
  | _ => (.error (.malformedKey key), e)

/-- The commands of changes in their order, up to the first change that has none. -/
def compileAll (e : Enquiry) : List (String × Change) → Compiled × Enquiry
  | [] => (.ok [], e)
  | (key, change) :: rest =>
    match commandsFor e key change with
    | (.error cause, e) => (.error cause, e)
    | (.ok commands, e) =>
      match compileAll e rest with
      | (.error cause, e) => (.error cause, e)
      | (.ok more, e) => (.ok (commands ++ more), e)

/-- **The commands of a set of changes**, and the commands that the node was asked. -/
def ChangeSet.compile (changes : ChangeSet) (source? : Option InfoSource) :
    Compiled × List String :=
  let (result, e) := compileAll (.start source?) (rearrange changes)
  (result, e.asked)

end Reconfig
