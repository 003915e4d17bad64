import Reconfig.Diff.Compare
import Reconfig.Flat.Flatten

/-!
# The difference of two configurations

The changes that turn a current configuration into a desired one, key by key, and the keys that
would have to return to a default that is not known.

A desired key is compared with its current value. A key of an instance that the current
configuration lacks creates that instance if it holds its identity. A current key that is not
desired returns to its default; below an instance that is not desired, only the instance's identity
is removed. Where a desired key is new within an instance that exists, the instance is *reopened*:
all current keys below it that are not desired return to their defaults.

* `isNodeSpecific`, `Comparison`, `Comparison.isExcluded`;
* `Comparison.desiredChange?`, `Comparison.currentOutcome`;
* **`Comparison.report`**, **`diff`**.
-/

namespace Reconfig

/-- Fields that describe a single node rather than the cluster. -/
def nodeSpecificFields : List String :=
  ["node-id", "port", "access-port", "address", "access-address", "alternate-access-address",
   "alternate-access-port", "tls-address", "tls-port", "tls-access-address", "tls-access-port",
   "tls-alternate-access-address", "tls-alternate-access-port", "external-address",
   "interface-address", "mesh-seed-address-ports", "tls-mesh-seed-address-ports", "file", "files",
   "device", "devices", "mounts", "pidfile", "service-threads", "batch-index-threads", "mtu"]

/-- The context whose sections are files of a single node. -/
def loggingContext : String := "logging"

/-- The field, or its singular, describes a single node. -/
def isNodeSpecific (field : String) : Bool :=
  nodeSpecificFields.contains field || nodeSpecificFields.contains (Vocabulary.singular field)

/-- What a comparison leaves out. -/
structure DiffOptions where
  /-- Leave out the fields that describe a single node, and the logging context. -/
  skipNodeSpecific : Bool := true
  deriving DecidableEq

/-- What a comparison finds. -/
structure DiffReport where
  /-- The changes to apply. -/
  changes : ChangeSet
  /-- Keys that would return to a default but have none. -/
  unresolved : TextSet

/-- The instances that occur in the keys of a flat configuration. -/
def FlatConfig.instancePaths (flat : FlatConfig) : List Path :=
  (flat.keys.flatMap fun key => (Path.parse key).instancePaths).eraseDups

/-- The identity that a key carries: the text at an instance's identity field, if it is the
instance's selector. -/
def identityAt? (path : Path) (value : Value) : Option String :=
  if path.isIdentity then
    match path.dropLast.getLast?, value.text? with
    | some (.selector id), some t => if t = id then some t else none
    | _, _ => none
  else none

/-- The key is outside the comparison: the marker of a position, or specific to a node. -/
def isExcluded (options : DiffOptions) (path : Path) : Bool :=
  path.isIndexMarker ||
    (options.skipNodeSpecific &&
      (path.context? == some loggingContext || path.baseField?.any isNodeSpecific))

/-- Two configurations side by side. -/
structure Comparison where
  /-- The configuration to reach. -/
  desired : FlatConfig
  /-- The configuration in force. -/
  current : FlatConfig
  /-- The values of keys that are not configured, by logical key. -/
  defaults : Dict Value
  /-- What is left out. -/
  options : DiffOptions
  /-- The instances of the desired configuration. -/
  desiredInstances : List Path
  /-- The instances of the current configuration. -/
  currentInstances : List Path

/-- What becomes of one key. -/
structure Outcome where
  /-- The change to apply. -/
  change? : Option Change
  /-- A default is needed that is not known. -/
  isUnresolved : Bool

/-- The key stays as it is. -/
def Outcome.unchanged : Outcome := ⟨none, false⟩

namespace Comparison

/-- The comparison of two configurations. -/
def of (desired current : FlatConfig) (defaults : Dict Value) (options : DiffOptions) :
    Comparison where
  desired := desired
  current := current
  defaults := defaults
  options := options
  desiredInstances := desired.instancePaths
  currentInstances := current.instancePaths

variable (c : Comparison)

/-! ## Desired keys -/

/-- The change for a desired key. -/
def desiredChange? (key : String) (value : Value) : Option Change :=
  let path := Path.parse key
  if isExcluded c.options path then none
  else
    match c.current.find? key with
    | some current => value.changeTo? current
    | none =>
      match path.section? with
      | some instancePath =>
        if c.currentInstances.contains instancePath then value.newChange?
        else
          match identityAt? path value with
          | some id => some (.add (.text id))
          | none => value.newChange?
      | none => value.newChange?

/-- The instance in which a desired key is new, if it exists in the current configuration. -/
def reopenedBy? (key : String) : Option Path :=
  let path := Path.parse key
  if isExcluded c.options path || c.current.contains key then none
  else path.section?.filter fun s => c.currentInstances.contains s

/-- The instances in which desired keys are new. -/
def reopened : List Path := (c.desired.keys.filterMap c.reopenedBy?).eraseDups

/-! ## Current keys -/

/-- What becomes of a key that is not desired any more: the elements of a list are removed, and
any other value returns to its default. -/
def resetOutcome (path : Path) (current : Value) : Outcome :=
  match current with
  | .list items => if items.isEmpty then .unchanged else ⟨some (.remove current), false⟩
  | .nested _ => .unchanged
  | _ =>
    match c.defaults.find? path.logicalKey with
    | some default =>
      if (default.changeTo? current).isSome then ⟨some (.update default), false⟩ else .unchanged
    | none => ⟨none, true⟩

/-- What becomes of a key below an instance that is not desired, after what has become of it
before: the instance's identity is removed, unless the key has a change already. -/
def removedOutcome (path instancePath : Path) (current : Value) (before : Outcome) : Outcome :=
  match before.change? with
  | some _ => before
  | none =>
    if path.parent? = some instancePath then
      ⟨(identityAt? path current).map fun id => .remove (.text id), before.isUnresolved⟩
    else before

/-- What becomes of a current key, given the reopened instances. -/
def currentOutcome (reopened : List Path) (key : String) (current : Value) : Outcome :=
  let path := Path.parse key
  if c.desired.contains key || isExcluded c.options path then .unchanged
  else
    match path.instancePaths.find? fun s => !c.desiredInstances.contains s with
    | none => c.resetOutcome path current
    | some instancePath =>
      removedOutcome path instancePath current
        (if reopened.any fun s => s.isPrefixOf path then c.resetOutcome path current
          else .unchanged)

/-! ## The report -/

/-- The changes of the desired keys. -/
def desiredChanges : List (String × Change) :=
  c.desired.entries.filterMap fun e => (c.desiredChange? e.1 e.2).map fun change => (e.1, change)

/-- What becomes of the current keys. -/
def currentOutcomes : List (String × Outcome) :=
  let reopened := c.reopened
  c.current.entries.map fun e => (e.1, c.currentOutcome reopened e.1 e.2)

/-- **All changes, and the keys without a default.** -/
def report : DiffReport :=
  let outcomes := c.currentOutcomes
  { changes := Dict.ofList (c.desiredChanges ++
      outcomes.filterMap fun e => e.2.change?.map fun change => (e.1, change))
    unresolved := TextSet.ofTexts
      (outcomes.filterMap fun e => if e.2.isUnresolved then some e.1 else none) }

end Comparison

/-- **The difference of two configurations.** -/
def diff (desired current : FlatConfig) (defaults : Dict Value) (options : DiffOptions) :
    DiffReport :=
  (Comparison.of desired current defaults options).report

end Reconfig
