import Reconfig.Diff.Report
import Reconfig.Proofs.Dict

/-!
# What a comparison reports at a key

The changes of a report are made in two rounds, of desired keys and of current keys. Each key is
decided in one of them alone.

* **`find?_report`**, **`contains_unresolved`**: what a report says about a key;
* **`find?_report_of_desired`**: a desired key has the change that its value asks for, and what is
  done to other keys does not touch it;
* **`find?_report_of_not_desired`**: what becomes of a key that is current only.
-/

namespace Reconfig

open Reconfig.Path (parse)

theorem eq_text_of_identityAt? {path : Path} {v : Value} {id : String}
    (h : identityAt? path v = some id) : v = .text id := by
  unfold identityAt? at h
  split_ifs at h
  split at h
  · rename_i t ht
    obtain ⟨-, heq⟩ := Option.ite_none_right_eq_some.1 h
    cases heq
    cases v with
    | scalar s =>
      cases s with
      | text s =>
        cases ht
        rfl
      | bool b => cases ht
      | int i => cases ht
      | uint n => cases ht
      | float x => cases ht
    | list items => cases ht
    | nested fields => cases ht
    | repeated sections => cases ht
  · cases h

theorem identityAt?_eq_none (path : Path) {v : Value} (h : v.text? = none) :
    identityAt? path v = none := by
  refine Option.eq_none_iff_forall_ne_some.2 fun id hid => ?_
  rw [eq_text_of_identityAt? hid] at h
  cases h

namespace Comparison

variable {c : Comparison}

theorem currentOutcome_of_desired {reopened : List Path} {key : String} (current : Value)
    (h : c.desired.contains key = true) :
    c.currentOutcome reopened key current = .unchanged := by
  rw [currentOutcome, h, Bool.true_or]
  rfl

theorem currentOutcome_of_excluded {reopened : List Path} {key : String} (current : Value)
    (h : isExcluded c.options (parse key) = true) :
    c.currentOutcome reopened key current = .unchanged := by
  rw [currentOutcome, h, Bool.or_true]
  rfl

theorem currentChanges_eq : c.currentOutcomes.filterMap (fun e =>
      e.2.change?.map fun change => (e.1, change)) =
    c.current.entries.filterMap fun e =>
      (c.currentOutcome c.reopened e.1 e.2).change?.map fun change => (e.1, change) := by
  rw [currentOutcomes, List.filterMap_map]
  rfl

theorem find?_report (key : String) :
    c.report.changes.find? key =
      ((c.current.find? key).bind fun w => (c.currentOutcome c.reopened key w).change?).or
        ((c.desired.find? key).bind (c.desiredChange? key)) := by
  have hcurrent := Dict.find?_ofList_filterMap c.current
    (fun key w => (c.currentOutcome c.reopened key w).change?) key
  have hdesired := Dict.find?_ofList_filterMap c.desired c.desiredChange? key
  rw [report, Dict.find?_ofList_append, currentChanges_eq, hcurrent]
  exact congrArg _ hdesired

theorem contains_unresolved {key : String} :
    c.report.unresolved.contains key = true ↔
      ∃ w, c.current.find? key = some w ∧
        (c.currentOutcome c.reopened key w).isUnresolved = true := by
  rw [report, TextSet.contains_ofTexts, currentOutcomes, List.filterMap_map, List.mem_filterMap]
  constructor
  · rintro ⟨⟨k, w⟩, hmem, h⟩
    rw [Function.comp_apply] at h
    obtain ⟨hres, heq⟩ := Option.ite_none_right_eq_some.1 h
    cases heq
    exact ⟨w, Dict.mem_entries.1 hmem, hres⟩
  · rintro ⟨w, hw, hres⟩
    refine ⟨(key, w), Dict.mem_entries.2 hw, ?_⟩
    rw [Function.comp_apply]
    exact if_pos hres

/-- **A desired key has the change that its value asks for.** -/
theorem find?_report_of_desired {key : String} {v : Value} (h : c.desired.find? key = some v) :
    c.report.changes.find? key = c.desiredChange? key v := by
  have hcontains : c.desired.contains key = true := Dict.contains_eq_true.2 ⟨v, h⟩
  rw [find?_report, h, Option.bind_some]
  cases hw : c.current.find? key with
  | none => rfl
  | some w =>
    rw [Option.bind_some, currentOutcome_of_desired w hcontains]
    rfl

/-- **A key that is not desired has the change that its current value asks for.** -/
theorem find?_report_of_not_desired {key : String} (h : c.desired.find? key = none) :
    c.report.changes.find? key =
      (c.current.find? key).bind fun w => (c.currentOutcome c.reopened key w).change? := by
  rw [find?_report, h, Option.bind_none, Option.or_none]

end Comparison

end Reconfig
