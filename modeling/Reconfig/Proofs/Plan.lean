import Reconfig.Plan
import Reconfig.Proofs.Dict

/-!
# Plans send commands only for live changes

A plan holds commands if every change may be applied to the running node, and otherwise the keys
that may not. The classifier decides this one exception after another; here the changes that may be
applied live are described at once, and the two are shown to agree.

* `IsLive`, **`rejection?_eq_none`**: the changes that may be applied to a running node;
* `mem_rejected`, `rejected_ordered`: the keys that need a restart;
* `Reconciler.exists_catalogue`: a difference is always that of a known build;
* **`plan_is_live_or_restart`**: what a plan holds, and when the node is asked.
-/

namespace Reconfig

/-! ## Changes that may be applied live -/

/-- The change of a key may be applied to a running node: it is one of the replication factor; or it
lies outside the context that is read at the start alone, in a field other than the one that never
changes live, removes nothing from a list that only grows, and the schema marks the field as
dynamic. -/
def IsLive (dynamic : TextSet) (key : String) (change : Change) : Prop :=
  let path := Path.parse key
  path.baseField? = some alwaysDynamicField ∨
    (path.context? ≠ some replicationContext ∧ path.baseField? ≠ some neverDynamicField ∧
      (∀ field ∈ growOnlyFields, path.baseField? = some field → change.has .remove = false) ∧
        dynamic.contains path.logicalKey = true)

instance (dynamic : TextSet) (key : String) (change : Change) :
    Decidable (IsLive dynamic key change) := by
  unfold IsLive
  infer_instance

theorem rejection?_eq_none {dynamic : TextSet} {key : String} {change : Change} :
    rejection? dynamic key change = none ↔ IsLive dynamic key change := by
  rw [IsLive, rejection?]
  cases hfield : (Path.parse key).baseField? with
  | none =>
    have hempty : "" ∉ growOnlyFields := by decide
    by_cases h : (Path.parse key).context? = some replicationContext <;>
      simp [alwaysDynamicField, neverDynamicField, hempty, h]
  | some field =>
    have hgrow : (∀ f ∈ growOnlyFields, some field = some f → change.has .remove = false) ↔
        (field ∈ growOnlyFields → change.has .remove = false) := by
      simp only [Option.some.injEq]
      exact ⟨fun h hmem => h field hmem rfl, fun h f hf heq => h (heq ▸ hf)⟩
    rw [hgrow]
    by_cases h1 : field = alwaysDynamicField
    · simp [h1]
    by_cases h2 : (Path.parse key).context? = some replicationContext
    · simp [h1, h2]
    by_cases h3 : field = neverDynamicField
    · subst h3
      simp [h1, h2]
    by_cases h4 : field ∈ growOnlyFields <;> cases h5 : change.has .remove <;>
      simp [h1, h2, h3, h4]

/-! ## Keys that need a restart -/

theorem mem_rejected {dynamic : TextSet} {changes : ChangeSet} {key : String} :
    key ∈ changes.rejected dynamic ↔
      ∃ change, changes.find? key = some change ∧ ¬ IsLive dynamic key change := by
  simp only [ChangeSet.rejected, List.mem_map, List.mem_filter, Option.isSome_iff_ne_none, ne_eq,
    rejection?_eq_none]
  constructor
  · rintro ⟨⟨k, change⟩, ⟨hmem, hnot⟩, rfl⟩
    exact ⟨change, Dict.mem_entries.1 hmem, hnot⟩
  · rintro ⟨change, hfind, hnot⟩
    exact ⟨(key, change), ⟨Dict.mem_entries.2 hfind, hnot⟩, rfl⟩

/-- **The keys that need a restart are listed in order**, each once. -/
theorem rejected_ordered (dynamic : TextSet) (changes : ChangeSet) :
    (changes.rejected dynamic).Pairwise (· < ·) :=
  List.pairwise_map.2 (changes.ordered.filter _)

theorem rejected_eq_nil {dynamic : TextSet} {changes : ChangeSet} :
    changes.rejected dynamic = [] ↔
      ∀ key change, changes.find? key = some change → IsLive dynamic key change := by
  rw [List.eq_nil_iff_forall_not_mem]
  simp only [mem_rejected, not_exists, not_and, not_not]

/-! ## Plans -/

namespace Reconciler

variable {r : Reconciler} {build : String} {desired current : Tree} {source? : Option InfoSource}
  {report : DiffReport}

/-- **A difference is always that of a build with a catalogue.** -/
theorem exists_catalogue (h : r.diff build desired current = .ok report) :
    ∃ catalogue, r.registry.catalogue build = .ok catalogue := by
  rw [diff] at h
  split at h
  · cases h
  · rw [Registry.diff] at h
    cases hc : r.registry.catalogue build with
    | error e =>
      rw [hc] at h
      cases h
    | ok catalogue => exact ⟨catalogue, rfl⟩

section Planned

variable {catalogue : Catalogue} (h : r.diff build desired current = .ok report)
  (hc : r.registry.catalogue build = .ok catalogue)

include h hc

theorem plan_of_live (hlive : report.changes.rejected catalogue.dynamic = []) :
    r.plan build desired current source? =
      (match (report.changes.compile source?).1 with
        | .error e => .error (.compile e)
        | .ok commands => .ok (.live commands),
      (report.changes.compile source?).2) := by
  have hrejected : r.registry.rejected build report.changes = .ok [] := by
    rw [Registry.rejected, hc]
    exact congrArg Except.ok hlive
  rw [plan, h]
  simp only [hrejected]
  cases report.changes.compile source? with
  | mk result asked => cases result <;> rfl

theorem plan_of_rejected (hrestart : report.changes.rejected catalogue.dynamic ≠ []) :
    r.plan build desired current source? =
      (.ok (.restart (report.changes.rejected catalogue.dynamic)), []) := by
  obtain ⟨key, keys, hkeys⟩ := List.exists_cons_of_ne_nil hrestart
  have hrejected : r.registry.rejected build report.changes = .ok (key :: keys) := by
    rw [Registry.rejected, hc]
    exact congrArg Except.ok hkeys
  rw [plan, h, hkeys]
  simp only [hrejected]

end Planned

theorem plan_of_error {e : ReconcileError} (h : r.diff build desired current = .error e) :
    r.plan build desired current source? = (.error e, []) := by
  rw [plan, h]

end Reconciler

/-- **A plan sends commands only if every change may be applied live.** It holds commands exactly
if there is a difference, all changes of it may be applied live and they have commands, and those
are its commands; it asks for a restart exactly if some change may not, and then for the keys of
these changes, in order; and nothing is asked of the node but for commands. -/
theorem plan_is_live_or_restart (r : Reconciler) (build : String) (desired current : Tree)
    (source? : Option InfoSource) :
    (∀ commands asked, r.plan build desired current source? = (.ok (.live commands), asked) ↔
      ∃ report catalogue, r.diff build desired current = .ok report ∧
        r.registry.catalogue build = .ok catalogue ∧
        (∀ key change, report.changes.find? key = some change →
          IsLive catalogue.dynamic key change) ∧
        report.changes.compile source? = (.ok commands, asked)) ∧
    ((∃ keys, (r.plan build desired current source?).1 = .ok (.restart keys)) ↔
      ∃ report catalogue, r.diff build desired current = .ok report ∧
        r.registry.catalogue build = .ok catalogue ∧
        ∃ key change, report.changes.find? key = some change ∧
          ¬ IsLive catalogue.dynamic key change) ∧
    (∀ keys, (r.plan build desired current source?).1 = .ok (.restart keys) →
      ∃ report catalogue, r.diff build desired current = .ok report ∧
        r.registry.catalogue build = .ok catalogue ∧ keys.Pairwise (· < ·) ∧
        ∀ key, key ∈ keys ↔ ∃ change, report.changes.find? key = some change ∧
          ¬ IsLive catalogue.dynamic key change) ∧
    (((∃ keys, (r.plan build desired current source?).1 = .ok (.restart keys)) ∨
        ∃ e, (r.plan build desired current source?).1 = .error e ∧ ∀ cause, e ≠ .compile cause) →
      (r.plan build desired current source?).2 = []) := by
  cases hdiff : r.diff build desired current with
  | error e => simp [Reconciler.plan_of_error hdiff]
  | ok report =>
    obtain ⟨catalogue, hc⟩ := Reconciler.exists_catalogue hdiff
    simp only [hc, Except.ok.injEq, exists_and_left, exists_eq_left']
    by_cases hlive : report.changes.rejected catalogue.dynamic = []
    · have hall := rejected_eq_nil.1 hlive
      have hnone : ¬ ∃ key change, report.changes.find? key = some change ∧
          ¬ IsLive catalogue.dynamic key change :=
        fun ⟨key, change, hfind, hnot⟩ => hnot (hall key change hfind)
      rw [Reconciler.plan_of_live hdiff hc hlive]
      cases report.changes.compile source? with
      | mk result asked =>
        cases result with
        | error cause => simp [hnone]
        | ok commands => simpa [hnone] using hall
    · have hsome : ∃ key change, report.changes.find? key = some change ∧
          ¬ IsLive catalogue.dynamic key change := by
        obtain ⟨key, hkey⟩ := List.exists_mem_of_ne_nil _ hlive
        exact ⟨key, mem_rejected.1 hkey⟩
      rw [Reconciler.plan_of_rejected hdiff hc hlive]
      refine ⟨fun commands asked => ?_, ?_, fun keys hkeys => ?_, fun _ => rfl⟩
      · obtain ⟨key, change, hfind, hnot⟩ := hsome
        constructor
        · intro h
          cases h
        · rintro ⟨hall, -⟩
          exact absurd (hall key change hfind) hnot
      · exact ⟨fun _ => hsome, fun _ => ⟨_, rfl⟩⟩
      · cases hkeys
        exact ⟨rejected_ordered _ _, fun key => mem_rejected⟩

end Reconfig
