import Reconfig.Change
import Reconfig.Key.Text

/-!
# Changes to a running node

Whether a change may be applied to a running node. A change that may not asks for a restart.

* `Rejection`, `Rejection.reason`;
* **`rejection?`**: why a change needs a restart, none if it may be applied live;
* `ChangeSet.rejected`: the keys of the changes that need a restart.
-/

namespace Reconfig

/-- Why a change needs a restart. -/
inductive Rejection where
  /-- The whole context is only read at the start. -/
  | staticContext
  /-- The field never changes live. -/
  | denyListed
  /-- Elements are removed from a list that only grows. -/
  | growOnlyRemoval
  /-- The schema does not mark the field as dynamic. -/
  | notDynamic
  deriving DecidableEq, Repr

namespace Rejection

/-- The reason in words. -/
def reason : Rejection → String
  | .staticContext => "context requires restart"
  | .denyListed => "field is never dynamic"
  | .growOnlyRemoval => "list can only grow"
  | .notDynamic => "schema marks field static"

end Rejection

/-- The field that changes live whatever the schema says. -/
def alwaysDynamicField : String := "replication-factor"

/-- The context that never changes live. -/
def replicationContext : String := "xdr"

/-- The field that never changes live. -/
def neverDynamicField : String := "rack-id"

/-- The lists that grow live but do not shrink. -/
def growOnlyFields : List String := ["ignore-bins", "ignore-sets", "ship-bins", "ship-sets"]

/-- **Why a change of a key needs a restart**, given the logical keys that the schema marks as
dynamic. -/
def rejection? (dynamic : TextSet) (key : String) (change : Change) : Option Rejection :=
  let path := Path.parse key
  let field := path.baseField?.getD ""
  if field = alwaysDynamicField then none
  else if path.context? = some replicationContext then some .staticContext
  else if field = neverDynamicField then some .denyListed
  else if growOnlyFields.contains field && change.has .remove then some .growOnlyRemoval
  else if dynamic.contains path.logicalKey then none
  else some .notDynamic

/-- The keys of the changes that need a restart, in order. -/
def ChangeSet.rejected (dynamic : TextSet) (changes : ChangeSet) : List String :=
  (changes.entries.filter fun e => (rejection? dynamic e.1 e.2).isSome).map (·.1)

end Reconfig
