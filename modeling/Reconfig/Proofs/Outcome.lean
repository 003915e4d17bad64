import Reconfig.Proofs.Report

/-!
# What becomes of a key

Each key of a report is decided by cases: a desired key by its current value or as a new one, and a
key that is not desired by what is around it. Here these cases are told apart once.

* `changeTo?_eq_some`, `changeTo?_of_isNested`: the comparison of two values;
* `mem_instancePaths_iff`: the instances of a flat configuration;
* `Comparison.reopensAround`, `mem_reopened`: new desired keys around an instance;
* `desiredChange?_eq_some`: the changes of desired keys;
* `resetOutcome_eq_some`, `change?_resetOutcome`: the return to a default;
* `removalAt`, `removedOutcome_eq`: the removal of an instance;
* `Comparison.removedAround?`, `Comparison.outcomeAround`, **`currentOutcome_eq`**: what becomes of
  a key that is not desired;
* `report_of_excluded`, `report_of_missing`: the keys about which nothing is said.
-/

namespace Reconfig

open Reconfig.Path (parse)

/-! ## Two values -/

theorem exists_fields {v : Value} (h : v.isNested = true) : ∃ fields, v = .nested fields := by
  cases v with
  | nested fields => exact ⟨fields, rfl⟩
  | scalar s => cases h
  | list items => cases h
  | repeated sections => cases h

theorem changeTo?_of_isNested {v w : Value} (h : v.isNested = true ∨ w.isNested = true) :
    v.changeTo? w = none := by
  rcases h with h | h
  · obtain ⟨fields, rfl⟩ := exists_fields h
    rfl
  · obtain ⟨fields, rfl⟩ := exists_fields h
    cases v <;> rfl

theorem changeTo?_eq_some {v w : Value} {change : Change} (h : v.changeTo? w = some change) :
    (∃ added removed, Change.ofLists? added removed = some change) ∨ change = .update v := by
  unfold Value.changeTo? at h
  split at h
  · cases h
  · cases h
  · exact .inl ⟨_, _, h⟩
  · exact .inl ⟨_, _, h⟩
  · exact .inl ⟨_, _, h⟩
  · split_ifs at h
    cases h
    exact .inr rfl
  · split_ifs at h
    cases h
    exact .inr rfl

/-! ## Instances of flat configurations -/

theorem mem_instancePaths_iff {flat : FlatConfig} {p : Path} :
    p ∈ flat.instancePaths ↔ ∃ key, flat.contains key = true ∧ p ∈ (parse key).instancePaths := by
  rw [FlatConfig.instancePaths, List.mem_eraseDups, List.mem_flatMap]
  simp only [Dict.mem_keys]

theorem mem_instancePaths_of_contains {flat : FlatConfig} {key : String}
    (h : flat.contains key = true) {p : Path} (hp : p ∈ (parse key).instancePaths) :
    p ∈ flat.instancePaths := mem_instancePaths_iff.2 ⟨key, h, hp⟩

theorem contains_eq_false_of_below {flat : FlatConfig} {p : Path} (h : p ∉ flat.instancePaths)
    {key : String} (hp : p ∈ (parse key).instancePaths) : flat.contains key = false := by
  rw [← Bool.not_eq_true]
  exact fun hkey => h (mem_instancePaths_of_contains hkey hp)

/-- An instance around or at the path is reopened. -/
def Comparison.reopensAround (c : Comparison) (p : Path) : Bool :=
  c.reopened.any fun s => s.isPrefixOf p

/-- **A reopened instance** is one of the current configuration in which a desired key is new. -/
theorem mem_reopened {c : Comparison} {s : Path} :
    s ∈ c.reopened ↔ ∃ key, c.desired.contains key = true ∧
      isExcluded c.options (parse key) = false ∧ c.current.contains key = false ∧
        (parse key).section? = some s ∧ c.currentInstances.contains s = true := by
  rw [Comparison.reopened, List.mem_eraseDups, List.mem_filterMap]
  refine exists_congr fun key => ?_
  rw [Dict.mem_keys, Comparison.reopenedBy?]
  refine and_congr_right fun _ => ?_
  cases hx : isExcluded c.options (parse key) <;> cases hk : c.current.contains key <;>
    simp [Option.filter_eq_some_iff]

/-- The removal of the identity that a key directly below an instance carries. -/
def removalAt (path p : Path) (w : Value) : Option Change :=
  if path.parent? = some p then (identityAt? path w).map fun id => .remove (.text id) else none

theorem removedOutcome_eq (path p : Path) (w : Value) (before : Outcome) :
    Comparison.removedOutcome path p w before =
      ⟨before.change?.or (removalAt path p w), before.isUnresolved⟩ := by
  obtain ⟨change?, isUnresolved⟩ := before
  rw [Comparison.removedOutcome, removalAt]
  cases change? with
  | some change => rfl
  | none => split_ifs <;> rfl

namespace Comparison

variable {c : Comparison}

/-! ## Desired keys -/

theorem desiredChange?_eq_some {key : String} {v : Value} {change : Change}
    (h : c.desiredChange? key v = some change) : isExcluded c.options (parse key) = false ∧
      ((∃ w, c.current.find? key = some w ∧ v.changeTo? w = some change) ∨
        v.newChange? = some change ∨ ∃ id, change = .add (.text id)) := by
  unfold desiredChange? at h
  simp only at h
  split_ifs at h with hx
  refine ⟨Bool.eq_false_iff.2 hx, ?_⟩
  split at h
  · rename_i w hw
    exact .inl ⟨w, hw, h⟩
  · split at h
    · split_ifs at h
      · exact .inr (.inl h)
      · split at h
        · cases h
          exact .inr (.inr ⟨_, rfl⟩)
        · exact .inr (.inl h)
    · exact .inr (.inl h)

/-! ## Keys that are not desired -/

/-- **A key returns to its default by a removal of all elements or by an update.** -/
theorem resetOutcome_eq_some {path : Path} {w : Value} {change : Change}
    (h : (c.resetOutcome path w).change? = some change) :
    (∃ items, w = .list items ∧ change = .remove w) ∨
      ∃ d, c.defaults.find? path.logicalKey = some d ∧ change = .update d := by
  unfold resetOutcome at h
  split at h
  · split_ifs at h
    · cases h
    · cases h
      exact .inl ⟨_, rfl, rfl⟩
  · cases h
  · split at h
    · rename_i d hd
      split_ifs at h
      · cases h
        exact .inr ⟨d, hd, rfl⟩
      · cases h
    · cases h

theorem change?_resetOutcome {path : Path} {d w : Value}
    (hd : c.defaults.find? path.logicalKey = some d) (hw : w.list? = none) :
    (c.resetOutcome path w).change? =
      if (d.changeTo? w).isSome then some (.update d) else none := by
  unfold resetOutcome
  cases w with
  | list items => cases hw
  | nested fields =>
    rw [changeTo?_of_isNested (.inr rfl)]
    rfl
  | scalar s | repeated sections =>
    simp only [hd]
    split_ifs <;> rfl

/-- The outermost instance around a path that is not desired. -/
def removedAround? (c : Comparison) (path : Path) : Option Path :=
  path.instancePaths.find? fun s => !c.desiredInstances.contains s

/-- What becomes of a key before an instance around it is removed. -/
def outcomeAround (c : Comparison) (path : Path) (w : Value) : Outcome :=
  if c.reopensAround path then c.resetOutcome path w else .unchanged

theorem mem_of_removedAround? {path p : Path} (h : c.removedAround? path = some p) :
    p ∈ path.instancePaths ∧ c.desiredInstances.contains p = false :=
  ⟨List.mem_of_find?_eq_some h, by simpa using List.find?_some h⟩

theorem currentOutcome_eq {key : String} (hdesired : c.desired.find? key = none)
    (hx : isExcluded c.options (parse key) = false) (w : Value) :
    c.currentOutcome c.reopened key w =
      match c.removedAround? (parse key) with
      | none => c.resetOutcome (parse key) w
      | some p => removedOutcome (parse key) p w (c.outcomeAround (parse key) w) := by
  rw [currentOutcome, Dict.contains_eq_false.2 hdesired, hx]
  rfl

theorem removedOutcome_of_change {path p : Path} {w : Value} {before : Outcome} {change : Change}
    (h : before.change? = some change) : removedOutcome path p w before = before := by
  rw [removedOutcome, h]

theorem change?_removedOutcome {path p : Path} {w : Value} {before : Outcome}
    (h : before.change? = none) : (removedOutcome path p w before).change? =
      if path.parent? = some p then (identityAt? path w).map fun id => .remove (.text id)
      else none := by
  rw [removedOutcome, h]
  simp only
  split_ifs
  · rfl
  · exact h

/-! ## Keys on which nothing is said -/

/-- **Nothing is reported on a key that is left out.** -/
theorem report_of_excluded {key : String} (hx : isExcluded c.options (parse key) = true) :
    c.report.changes.find? key = none ∧ c.report.unresolved.contains key = false := by
  constructor
  · rw [find?_report, Option.or_eq_none_iff, Option.bind_eq_none_iff, Option.bind_eq_none_iff]
    exact ⟨fun w _ => congrArg Outcome.change? (currentOutcome_of_excluded w hx),
      fun v _ => if_pos hx⟩
  · rw [← Bool.not_eq_true, contains_unresolved]
    rintro ⟨w, -, hw⟩
    rw [currentOutcome_of_excluded w hx] at hw
    cases hw

theorem report_of_missing {key : String} (hdesired : c.desired.find? key = none)
    (hcurrent : c.current.find? key = none) :
    c.report.changes.find? key = none ∧ c.report.unresolved.contains key = false := by
  constructor
  · rw [find?_report, hdesired, hcurrent]
    rfl
  · rw [← Bool.not_eq_true, contains_unresolved, hcurrent]
    rintro ⟨w, hw, -⟩
    cases hw

end Comparison

end Reconfig
