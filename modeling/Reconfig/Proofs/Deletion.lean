import Reconfig.Proofs.Lifecycle
import Reconfig.Proofs.Script

/-!
# The deletion of destinations

A destination can be deleted once its namespaces have been detached. The changes of a comparison
delete a destination that is gone, but they detach none of its namespaces.

* `deletionCommand`, `detachmentCommand`: the commands that remove replication objects;
* `Deletes`, **`deletes_iff`**: a script deletes the destinations that are gone;
* `DetachesBefore`: a script detaches a namespace before it deletes its destination;
* **`detaches_before_deletion_iff`**: which destinations have no namespace when they are deleted.
-/

namespace Reconfig

open Vocabulary (nameField)

/-- The command that deletes a destination. -/
def deletionCommand (dc : String) : String :=
  setConfig xdrContext ++ ";dc=" ++ dc ++ ";action=" ++ "delete"

/-- The command that detaches a namespace from a destination. -/
def detachmentCommand (dc ns : String) : String :=
  setConfig xdrContext ++ ";dc=" ++ dc ++ ";namespace=" ++ ns ++ ";action=" ++ "remove"

/-- The script deletes a destination. -/
def Deletes (script : List (String × String)) (dc : String) : Prop :=
  (nameKey (destinationPath dc), deletionCommand dc) ∈ script

/-- The script detaches a namespace from a destination before it deletes the destination. -/
def DetachesBefore (script : List (String × String)) (dc ns : String) : Prop :=
  [(nameKey (namespacePath dc ns), detachmentCommand dc ns),
    (nameKey (destinationPath dc), deletionCommand dc)].Sublist script

theorem exists_change_of_script {changes : ChangeSet} {source? : Option InfoSource}
    {script : List (String × String)} (h : changes.script source? = .ok script)
    {key command : String} (hmem : (key, command) ∈ script) :
    ∃ change, changes.find? key = some change := by
  obtain ⟨change, -, hchange, -⟩ := (mem_scriptOf h).1 hmem
  exact ⟨change, Dict.mem_entries.1 (mem_rearrange.1 hchange).1⟩

section Comparison

variable {desired current : Tree} (hd : desired.isSound = true)
  (hdn : desired.hasNamedReplication = true) (hc : current.isSound = true)
  (hcn : current.hasNamedReplication = true) (defaults : Dict Value) (options : DiffOptions)
  {source? : Option InfoSource} {script : List (String × String)}
  (hscript : (diff desired.flatten current.flatten defaults options).changes.script source? =
    .ok script) {dc ns : String}

include hc hcn in
theorem commandsAlone_deletion (h : dc ∈ current.replication.destinations) :
    commandsAlone source? (nameKey (destinationPath dc)) (.remove (.text dc)) =
      .ok [deletionCommand dc] := by
  have hkey := parse_nameKey hc (destination_name_leaf hc hcn h)
  have hcontext : commandsAlone source? (nameKey (destinationPath dc)) (.remove (.text dc)) =
      replicationCommands (nameKey (destinationPath dc)) (.remove (.text dc))
        ((destinationPath dc).child nameField) := by
    rw [commandsAlone, commandsFor, hkey]
    rfl
  rw [hcontext, replicationCommands, ReplicationPlace.of_destination]
  rfl

include hd hdn hc hcn hscript

/-- **The destinations that are gone are deleted**, and no others. -/
theorem deletes_iff (h : dc ∈ current.replication.destinations) :
    Deletes script dc ↔ dc ∉ desired.replication.destinations := by
  constructor
  · intro hdeletes hkept
    obtain ⟨change, hchange⟩ := exists_change_of_script hscript hdeletes
    rw [find?_destination_of_kept hd hdn hc hcn defaults options hkept h] at hchange
    cases hchange
  · intro hgone
    have hchange := find?_destination_of_removed hd hdn hc hcn defaults options h hgone
    refine (mem_scriptOf hscript).2 ⟨_, _, mem_rearrange.2 ⟨Dict.mem_entries.2 hchange, ?_⟩,
      commandsAlone_deletion hc hcn h, List.mem_singleton.2 rfl⟩
    rw [phase?, placeOf_destination hc hcn h]
    rfl

theorem not_detachesBefore (h : (dc, ns) ∈ current.replication.namespaces)
    (hgone : dc ∉ desired.replication.destinations) : ¬ DetachesBefore script dc ns := by
  intro hdetaches
  obtain ⟨change, hchange⟩ :=
    exists_change_of_script hscript (hdetaches.subset List.mem_cons_self)
  rw [find?_namespace_below_removed hd hdn hc hcn defaults options h hgone] at hchange
  cases hchange

end Comparison

/-- **A destination is deleted after its namespaces if and only if it has none.** The commands of
the changes between two configurations come from a script. It deletes the destinations that are
gone; where it does, it has detached every namespace of the destination before only if there is no
such namespace. -/
theorem detaches_before_deletion_iff {desired current : Tree} (hd : desired.isSound = true)
    (hdn : desired.hasNamedReplication = true) (hc : current.isSound = true)
    (hcn : current.hasNamedReplication = true) (defaults : Dict Value) (options : DiffOptions)
    {source? : Option InfoSource} {commands : List String}
    (hcompile : ((diff desired.flatten current.flatten defaults options).changes.compile
      source?).1 = .ok commands) :
    ∃ script, commands = script.map Prod.snd ∧
      (diff desired.flatten current.flatten defaults options).changes.script source? =
          .ok script ∧
        ∀ dc ∈ current.replication.destinations,
          (Deletes script dc ↔ dc ∉ desired.replication.destinations) ∧
            (Deletes script dc →
              ((∀ ns, (dc, ns) ∈ current.replication.namespaces → DetachesBefore script dc ns) ↔
                ∀ ns, (dc, ns) ∉ current.replication.namespaces)) := by
  rw [compile_eq_script] at hcompile
  cases hscript : (diff desired.flatten current.flatten defaults options).changes.script
      source? with
  | error cause =>
    rw [hscript] at hcompile
    cases hcompile
  | ok script =>
    rw [hscript] at hcompile
    refine ⟨script, (Except.ok.inj hcompile).symm, rfl, fun dc hdc => ?_⟩
    have hdeletes := deletes_iff hd hdn hc hcn defaults options hscript hdc
    refine ⟨hdeletes, fun hdel => ⟨fun hdetaches ns hns => ?_, fun hnone ns hns => ?_⟩⟩
    · exact not_detachesBefore hd hdn hc hcn defaults options hscript hns (hdeletes.1 hdel)
        (hdetaches ns hns)
    · exact absurd hns (hnone ns)

/-- A destination is deleted while a namespace is attached to it. -/
theorem not_detached_before_deletion :
    let desired : Tree := [("xdr", .nested [("dcs", .repeated [])])]
    let current : Tree := [("xdr", .nested [("dcs", .repeated [
      [("name", .text "DC3"), ("namespaces", .repeated [[("name", .text "ns1")]])]])])]
    ∃ script, (diff desired.flatten current.flatten .empty {}).changes.script none = .ok script ∧
      Deletes script "DC3" ∧ ("DC3", "ns1") ∈ current.replication.namespaces ∧
        ¬ ∀ ns, ("DC3", ns) ∈ current.replication.namespaces → DetachesBefore script "DC3" ns := by
  intro desired current
  have hcompile : ((diff desired.flatten current.flatten .empty {}).changes.compile none).1 =
      .ok ["set-config:context=xdr;dc=DC3;action=delete"] := by decide +kernel
  obtain ⟨script, -, hscript, hiff⟩ := detaches_before_deletion_iff (by decide) (by decide)
    (by decide) (by decide) .empty {} hcompile
  obtain ⟨hdeletes, hdetaches⟩ := hiff "DC3" (by decide)
  have hdeleted : Deletes script "DC3" := hdeletes.2 (by decide)
  have hattached : ("DC3", "ns1") ∈ current.replication.namespaces := by decide
  exact ⟨script, hscript, hdeleted, hattached,
    fun h => (hdetaches hdeleted).1 h "ns1" hattached⟩

end Reconfig
