import Reconfig.Proofs.Removal
import Reconfig.Proofs.Regular

/-!
# A second comparison

The changes of a comparison are applied and the result is compared again. The desired keys have
nothing left to change. Of the other keys, a second comparison takes back what the first one has
written to some: a default that is a list, since the elements of a list are removed whatever the
default is, and a default that names a removed instance, since it is then taken for the identity
of it.

* `ChangeSet.isDestroyed`, **`FlatConfig.after`**: a configuration after changes;
* `Comparison.next`: the comparison that follows;
* `desiredChange?_next`: desired keys are settled;
* `Comparison.StaysReopened`, `reopensAround_next`: the instances that are reopened again;
* `resetOutcome_after`: what becomes of a key that has returned to its default;
* `Comparison.TakesBack`, **`find?_next`**: what the second comparison changes;
* **`second_run_idle_iff`**: when it changes nothing.
-/

namespace Reconfig

open Reconfig.Path (parse)

/-! ## Applying all changes -/

/-- The change destroys an instance. -/
def Change.destroys : Change → Bool
  | .remove (.scalar _) => true
  | _ => false

/-- The path is below an instance that the changes destroy. -/
def ChangeSet.isDestroyed (changes : ChangeSet) (path : Path) : Bool :=
  changes.entries.any fun e =>
    e.2.destroys && (parse e.1).parent?.any fun p => p.isPrefixOf path

/-- The value of a key after the changes: an instance that is destroyed takes all keys below it
with it. -/
def FlatConfig.valueAfter? (current : FlatConfig) (changes : ChangeSet) (key : String) :
    Option Value :=
  if changes.isDestroyed (parse key) then none
  else valueAfter (changes.find? key) (current.find? key)

/-- **The configuration after the changes.** -/
def FlatConfig.after (current : FlatConfig) (changes : ChangeSet) : FlatConfig :=
  .ofList ((current.keys ++ changes.keys).filterMap fun key =>
    (current.valueAfter? changes key).map fun v => (key, v))

theorem FlatConfig.find?_after (current : FlatConfig) (changes : ChangeSet) (key : String) :
    (current.after changes).find? key = current.valueAfter? changes key := by
  have hkeys : ∀ v, current.valueAfter? changes key = some v →
      key ∈ current.keys ++ changes.keys := by
    intro v hv
    rw [valueAfter?] at hv
    split_ifs at hv
    rw [List.mem_append, Dict.mem_keys, Dict.mem_keys]
    cases hcurrent : current.find? key with
    | some w => exact .inl (Dict.contains_eq_true.2 ⟨w, hcurrent⟩)
    | none =>
      cases hchange : changes.find? key with
      | some change => exact .inr (Dict.contains_eq_true.2 ⟨change, hchange⟩)
      | none =>
        rw [hcurrent, hchange] at hv
        cases hv
  exact Dict.find?_ofList_keys hkeys

theorem isDestroyed_eq_true {changes : ChangeSet} {path : Path} :
    changes.isDestroyed path = true ↔ ∃ key change p, changes.find? key = some change ∧
      change.destroys = true ∧ (parse key).parent? = some p ∧ p <+: path := by
  rw [ChangeSet.isDestroyed, List.any_eq_true]
  constructor
  · rintro ⟨⟨key, change⟩, hmem, h⟩
    rw [Bool.and_eq_true, Option.any_eq_true] at h
    obtain ⟨hdestroys, p, hp, hbegins⟩ := h
    exact ⟨key, change, p, Dict.mem_entries.1 hmem, hdestroys, hp,
      List.isPrefixOf_iff_prefix.1 hbegins⟩
  · rintro ⟨key, change, p, hchange, hdestroys, hp, hbegins⟩
    refine ⟨(key, change), Dict.mem_entries.2 hchange, ?_⟩
    rw [Bool.and_eq_true, Option.any_eq_true]
    exact ⟨hdestroys, p, hp, List.isPrefixOf_iff_prefix.2 hbegins⟩

theorem Change.applyTo_eq_none {change : Change} {current : Option Value} :
    change.applyTo current = none ↔ change.destroys = true := by
  cases change with
  | update v => simp [applyTo, destroys]
  | add v => cases v <;> simp [applyTo, destroys]
  | remove v => cases v <;> simp [applyTo, destroys]
  | exchange a r => simp [applyTo, destroys]

/-! ## Destroyed instances -/

theorem destroys_ofLists {added removed : List String} {change : Change}
    (h : Change.ofLists? added removed = some change) : change.destroys = false := by
  cases added <;> cases removed <;> cases h <;> rfl

theorem destroys_changeTo {v w : Value} {change : Change} (h : v.changeTo? w = some change) :
    change.destroys = false := by
  rcases changeTo?_eq_some h with ⟨added, removed, hlists⟩ | rfl
  · exact destroys_ofLists hlists
  · rfl

theorem destroys_newChange {v : Value} {change : Change} (h : v.newChange? = some change) :
    change.destroys = false := by
  unfold Value.newChange? at h
  split at h
  · split_ifs at h
    cases h
    rfl
  · cases h
  · cases h
    rfl

namespace Comparison

variable {c : Comparison}

theorem destroys_desiredChange {key : String} {v : Value} {change : Change}
    (h : c.desiredChange? key v = some change) : change.destroys = false := by
  obtain ⟨-, ⟨w, -, hchange⟩ | hnew | ⟨id, rfl⟩⟩ := desiredChange?_eq_some h
  · exact destroys_changeTo hchange
  · exact destroys_newChange hnew
  · rfl

theorem destroys_resetOutcome {path : Path} {w : Value} {change : Change}
    (h : (c.resetOutcome path w).change? = some change) : change.destroys = false := by
  rcases resetOutcome_eq_some h with ⟨items, rfl, rfl⟩ | ⟨d, -, rfl⟩ <;> rfl

theorem destroys_outcomeAround {path : Path} {w : Value} {change : Change}
    (h : (c.outcomeAround path w).change? = some change) : change.destroys = false := by
  rw [outcomeAround] at h
  split_ifs at h
  · exact destroys_resetOutcome h
  · cases h

theorem notDesired_of_destroys {key : String} {change : Change}
    (h : c.report.changes.find? key = some change) (hdestroys : change.destroys = true) :
    ∃ p, (parse key).parent? = some p ∧ p ∈ (parse key).instancePaths ∧
      c.desiredInstances.contains p = false := by
  cases hdesired : c.desired.find? key with
  | some v =>
    rw [find?_report_of_desired hdesired] at h
    rw [destroys_desiredChange h] at hdestroys
    cases hdestroys
  | none =>
    rw [find?_report_of_not_desired hdesired] at h
    obtain ⟨w, -, hw⟩ := Option.bind_eq_some_iff.1 h
    cases hx : isExcluded c.options (parse key) with
    | true =>
      rw [currentOutcome_of_excluded w hx] at hw
      cases hw
    | false =>
      rw [currentOutcome_eq hdesired hx] at hw
      cases hp : c.removedAround? (parse key) with
      | none =>
        rw [hp] at hw
        rw [destroys_resetOutcome hw] at hdestroys
        cases hdestroys
      | some p =>
        simp only [hp] at hw
        cases hbefore : (c.outcomeAround (parse key) w).change? with
        | some reset =>
          rw [removedOutcome_of_change hbefore, hbefore] at hw
          cases hw
          rw [destroys_outcomeAround hbefore] at hdestroys
          cases hdestroys
        | none =>
          rw [change?_removedOutcome hbefore] at hw
          split_ifs at hw with hparent
          exact ⟨p, hparent, mem_of_removedAround? hp⟩

end Comparison

/-! ## The comparison that follows -/

namespace Comparison

/-- The instances are those of the configurations that are compared. -/
structure IsProper (c : Comparison) : Prop where
  desiredInstances_eq : c.desiredInstances = c.desired.instancePaths
  currentInstances_eq : c.currentInstances = c.current.instancePaths

theorem isProper_of (desired current : FlatConfig) (defaults : Dict Value) (options : DiffOptions) :
    (of desired current defaults options).IsProper := ⟨rfl, rfl⟩

/-- The comparison with the configuration that the changes of the report lead to. -/
def next (c : Comparison) : Comparison :=
  .of c.desired (c.current.after c.report.changes) c.defaults c.options

variable {c : Comparison} {key : String}

theorem find?_next_current (c : Comparison) (key : String) :
    c.next.current.find? key = c.current.valueAfter? c.report.changes key :=
  c.current.find?_after c.report.changes key

theorem isDestroyed_of_desired (hc : c.IsProper) (h : c.desired.contains key = true) :
    c.report.changes.isDestroyed (parse key) = false := by
  rw [← Bool.not_eq_true, isDestroyed_eq_true]
  rintro ⟨key', change, p, hchange, hdestroys, hparent, hbegins⟩
  obtain ⟨q, hq, hmem, hnot⟩ := notDesired_of_destroys hchange hdestroys
  obtain rfl : p = q := Option.some.inj (hparent.symm.trans hq)
  have hp : p ∈ (parse key).instancePaths :=
    Path.mem_instancePaths.2 ⟨hbegins, (Path.mem_instancePaths.1 hmem).2⟩
  have hdesired : c.desiredInstances.contains p = true := by
    simpa [hc.desiredInstances_eq] using mem_instancePaths_of_contains h hp
  exact nomatch hnot.symm.trans hdesired

theorem find?_next_current_of_desired (hc : c.IsProper) {v : Value}
    (h : c.desired.find? key = some v) :
    c.next.current.find? key = valueAfter (c.desiredChange? key v) (c.current.find? key) := by
  have hkept := isDestroyed_of_desired hc (Dict.contains_eq_true.2 ⟨v, h⟩)
  rw [find?_next_current, FlatConfig.valueAfter?, hkept, find?_report_of_desired h]
  rfl

theorem exists_current_of_next (h : c.desired.find? key = none) {v : Value}
    (hv : c.next.current.find? key = some v) : ∃ w, c.current.find? key = some w ∧
      valueAfter (c.currentOutcome c.reopened key w).change? (some w) = some v := by
  rw [find?_next_current, FlatConfig.valueAfter?] at hv
  split_ifs at hv
  rw [find?_report_of_not_desired h] at hv
  cases hw : c.current.find? key with
  | none =>
    rw [hw] at hv
    cases hv
  | some w =>
    rw [hw] at hv
    exact ⟨w, rfl, hv⟩

end Comparison

/-! ## Desired keys -/

theorem changeTo?_of_isReached {v r : Value} (h : v.IsReached (some r)) : v.changeTo? r = none := by
  cases v with
  | nested fields => rfl
  | scalar d =>
    cases r with
    | scalar r => exact if_pos h
    | list items => exact setChange?_eq_none h
    | nested fields => cases h
    | repeated sections => cases h
  | list d =>
    obtain ⟨items, hitems, hmem⟩ := h
    cases r with
    | scalar r =>
      cases hitems
      exact setChange?_eq_none hmem
    | list items =>
      cases hitems
      exact setChange?_eq_none hmem
    | nested fields => cases hitems
    | repeated sections => cases hitems
  | repeated d =>
    cases r with
    | scalar r => cases h
    | list items => cases h
    | nested fields => cases h
    | repeated sections =>
      have hsame : Value.same (.repeated d) (.repeated sections) = true := h
      rw [Value.changeTo?, if_pos hsame]
      all_goals simp

namespace Comparison

theorem desiredChange?_of_new {c : Comparison} {key : String} {v : Value}
    (hcurrent : c.current.find? key = none) (hnew : v.newChange? = none) :
    c.desiredChange? key v = none := by
  have hid : identityAt? (parse key) v = none := by
    cases hid : identityAt? (parse key) v with
    | none => rfl
    | some id =>
      rw [eq_text_of_identityAt? hid] at hnew
      cases hnew
  rw [desiredChange?, hcurrent]
  split_ifs
  · rfl
  · simp only [hid, hnew]
    split <;> simp

theorem desiredChange?_of_isReached {c : Comparison} {key : String} {v : Value}
    (h : v.IsReached (c.current.find? key)) : c.desiredChange? key v = none := by
  cases hcurrent : c.current.find? key with
  | some r =>
    rw [hcurrent] at h
    rw [desiredChange?, hcurrent]
    split_ifs
    · rfl
    · exact changeTo?_of_isReached h
  | none =>
    rw [hcurrent] at h
    refine desiredChange?_of_new hcurrent ?_
    cases v with
    | list items =>
      obtain rfl : items = [] := h
      rfl
    | scalar d => cases h
    | nested fields => cases h
    | repeated sections => cases h

theorem desiredChange?_of_nested {c : Comparison} {key : String} {v : Value}
    (h : v.isNested = true ∨ ∃ w, c.current.find? key = some w ∧ w.isNested = true) :
    c.desiredChange? key v = none := by
  cases hcurrent : c.current.find? key with
  | some w =>
    rw [desiredChange?, hcurrent]
    split_ifs
    · rfl
    · refine changeTo?_of_isNested (h.imp_right ?_)
      rintro ⟨w', hw', hnested⟩
      rwa [Option.some.inj (hcurrent.symm.trans hw')]
  | none =>
    refine desiredChange?_of_new hcurrent ?_
    rcases h with h | ⟨w, hw, -⟩
    · obtain ⟨fields, rfl⟩ := exists_fields h
      rfl
    · rw [hcurrent] at hw
      cases hw

/-- **Desired keys are settled**: once its change has been applied, a desired key has none. -/
theorem desiredChange?_next {c : Comparison} (hc : c.IsProper) {key : String} {v : Value}
    (hv : c.desired.find? key = some v) (hreg : v.isRegular = true) :
    c.next.desiredChange? key v = none := by
  have hnext := find?_next_current_of_desired hc hv
  cases hx : isExcluded c.options (parse key) with
  | true => exact if_pos hx
  | false =>
    by_cases hnested : v.isNested = true ∨ ∃ w, c.current.find? key = some w ∧ w.isNested = true
    · rw [desiredChange?_of_nested hnested] at hnext
      refine desiredChange?_of_nested (hnested.imp_right ?_)
      rintro ⟨w, hw, hwn⟩
      exact ⟨w, hnext.trans hw, hwn⟩
    · rw [not_or, Bool.not_eq_true] at hnested
      refine desiredChange?_of_isReached ?_
      rw [hnext]
      refine desiredChange?_reaches c hx hreg hnested.1 fun w hw => ?_
      exact Bool.eq_false_iff.2 fun hwn => hnested.2 ⟨w, hw, hwn⟩

end Comparison

/-! ## Instances that stay reopened -/

namespace Comparison

/-- An instance around the path stays reopened: a desired key in it is new and has no change. -/
def StaysReopened (c : Comparison) (path : Path) : Prop :=
  ∃ key s, c.desired.contains key = true ∧ isExcluded c.options (parse key) = false ∧
    c.current.contains key = false ∧ c.report.changes.find? key = none ∧
      (parse key).section? = some s ∧ s <+: path

variable {c : Comparison} (hc : c.IsProper) {key : String}

include hc

theorem reopensAround_eq_true (h : c.current.contains key = true) :
    c.reopensAround (parse key) = true ↔
      ∃ key' s, c.desired.contains key' = true ∧ isExcluded c.options (parse key') = false ∧
        c.current.contains key' = false ∧ (parse key').section? = some s ∧ s <+: parse key := by
  rw [reopensAround, List.any_eq_true]
  constructor
  · rintro ⟨s, hs, hbegins⟩
    obtain ⟨key', hdesired, hx, hnew, hsection, -⟩ := mem_reopened.1 hs
    exact ⟨key', s, hdesired, hx, hnew, hsection, List.isPrefixOf_iff_prefix.1 hbegins⟩
  · rintro ⟨key', s, hdesired, hx, hnew, hsection, hbegins⟩
    have hs := Path.mem_instancePaths_of_section? hsection
    have haround : s ∈ (parse key).instancePaths :=
      Path.mem_instancePaths.2 ⟨hbegins, (Path.mem_instancePaths.1 hs).2⟩
    have hcurrent : c.currentInstances.contains s = true := by
      simpa [hc.currentInstances_eq] using mem_instancePaths_of_contains h haround
    exact ⟨s, mem_reopened.2 ⟨key', hdesired, hx, hnew, hsection, hcurrent⟩,
      List.isPrefixOf_iff_prefix.2 hbegins⟩

theorem contains_next_current (h : c.desired.contains key = true) :
    c.next.current.contains key = false ↔
      c.current.contains key = false ∧ c.report.changes.find? key = none := by
  obtain ⟨v, hv⟩ := Dict.contains_eq_true.1 h
  rw [Dict.contains_eq_false, Dict.contains_eq_false, find?_next_current_of_desired hc hv,
    find?_report_of_desired hv]
  cases hchange : c.desiredChange? key v with
  | none => simp [valueAfter]
  | some change =>
    rw [valueAfter, Change.applyTo_eq_none, destroys_desiredChange hchange]
    simp

theorem reopensAround_next (h : c.next.current.contains key = true) :
    c.next.reopensAround (parse key) = true ↔ c.StaysReopened (parse key) := by
  refine (reopensAround_eq_true (isProper_of _ _ _ _) h).trans ?_
  constructor
  · rintro ⟨key', s, hdesired, hx, hnew, hsection, hbegins⟩
    obtain ⟨hmissing, hchange⟩ := (contains_next_current hc hdesired).1 hnew
    exact ⟨key', s, hdesired, hx, hmissing, hchange, hsection, hbegins⟩
  · rintro ⟨key', s, hdesired, hx, hmissing, hchange, hsection, hbegins⟩
    exact ⟨key', s, hdesired, hx, (contains_next_current hc hdesired).2 ⟨hmissing, hchange⟩,
      hsection, hbegins⟩

theorem reopensAround_of_staysReopened (h : c.current.contains key = true)
    (hstays : c.StaysReopened (parse key)) : c.reopensAround (parse key) = true := by
  obtain ⟨key', s, hdesired, hx, hnew, -, hsection, hbegins⟩ := hstays
  exact (reopensAround_eq_true hc h).2 ⟨key', s, hdesired, hx, hnew, hsection, hbegins⟩

end Comparison

/-! ## Keys that have returned to their defaults -/

/-- The value is a list with elements. -/
def Value.isFilled : Value → Bool
  | .list items => !items.isEmpty
  | _ => false

theorem isReached_self {v : Value} (hreg : v.isRegular = true) (hn : v.isNested = false) :
    v.IsReached (some v) := by
  cases v with
  | nested fields => cases hn
  | scalar d => exact Scalar.agrees_self hreg
  | list items => exact ⟨items, rfl, fun _ => Iff.rfl⟩
  | repeated sections => exact Value.same_self _ hreg

theorem changeTo?_self {v : Value} (hreg : v.isRegular = true) : v.changeTo? v = none := by
  cases hn : v.isNested with
  | true => exact changeTo?_of_isNested (.inl hn)
  | false => exact changeTo?_of_isReached (isReached_self hreg hn)

namespace Comparison

variable {c : Comparison}

theorem resetOutcome_default {path : Path} {d : Value}
    (hd : c.defaults.find? path.logicalKey = some d) (hreg : d.isRegular = true) :
    (c.resetOutcome path d).change? = if d.isFilled then some (.remove d) else none := by
  unfold resetOutcome
  cases d with
  | list items => cases items <;> rfl
  | nested fields => rfl
  | scalar s => simp [hd, changeTo?_self hreg, Value.isFilled, Outcome.unchanged]
  | repeated sections => simp [hd, changeTo?_self hreg, Value.isFilled, Outcome.unchanged]

theorem applyTo_remove_self (items : List String) :
    (Change.remove (.list items)).applyTo (some (.list items)) = some (.list []) := by
  simp [Change.applyTo, elementsAt, Value.elements?, Change.elements, Change.value?, Value.list?]

/-- **What becomes of a key that has been reset**: only a default that is a list with elements is
taken back. -/
theorem resetOutcome_after (hdefaults : ∀ key v, c.defaults.find? key = some v → v.isRegular = true)
    {path : Path} {w v : Value}
    (hv : valueAfter (c.resetOutcome path w).change? (some w) = some v) {change : Change} :
    (c.resetOutcome path v).change? = some change ↔
      (c.resetOutcome path w).change? = some (.update v) ∧ v.isFilled = true ∧
        change = .remove v := by
  cases hreset : (c.resetOutcome path w).change? with
  | none =>
    rw [hreset] at hv
    obtain rfl : w = v := Option.some.inj hv
    simp [hreset]
  | some first =>
    rw [hreset] at hv
    rcases resetOutcome_eq_some hreset with ⟨items, rfl, rfl⟩ | ⟨d, hd, rfl⟩
    · obtain rfl : .list [] = v := Option.some.inj ((applyTo_remove_self items).symm.trans hv)
      simp [resetOutcome, Outcome.unchanged]
    · obtain rfl : d = v := Option.some.inj hv
      rw [resetOutcome_default hd (hdefaults _ _ hd)]
      constructor
      · intro h
        obtain ⟨hfilled, heq⟩ := Option.ite_none_right_eq_some.1 h
        cases heq
        exact ⟨rfl, hfilled, rfl⟩
      · rintro ⟨-, hfilled, rfl⟩
        exact if_pos hfilled

theorem update_of_text {path : Path} {w v : Value} {first : Change} {id : String}
    (hreset : (c.resetOutcome path w).change? = some first)
    (hv : first.applyTo (some w) = some v) (hid : identityAt? path v = some id) :
    first = .update v := by
  rcases resetOutcome_eq_some hreset with ⟨items, rfl, rfl⟩ | ⟨d, -, rfl⟩
  · obtain rfl : .list [] = v := Option.some.inj ((applyTo_remove_self items).symm.trans hv)
    exact nomatch eq_text_of_identityAt? hid
  · exact congrArg Change.update (Option.some.inj hv)

/-! ## What is taken back -/

/-- A second comparison takes back the default that a key has returned to: a list with elements,
unless the instance around it is passed over, or what it holds for the identity of a removed
instance. -/
def TakesBack (c : Comparison) (path : Path) (v : Value) : Prop :=
  match c.removedAround? path with
  | none => v.isFilled = true
  | some p => (v.isFilled = true ∧ c.StaysReopened path) ∨
      (path.parent? = some p ∧ (identityAt? path v).isSome = true)

theorem removesIdentity_iff {path p : Path} {v : Value} {before : Outcome}
    (hbefore : before.change? = none) {change : Change} :
    (removedOutcome path p v before).change? = some change ↔
      path.parent? = some p ∧ (identityAt? path v).isSome = true ∧ change = .remove v := by
  rw [change?_removedOutcome hbefore, Option.ite_none_right_eq_some]
  refine and_congr_right fun _ => ?_
  cases hid : identityAt? path v with
  | none => simp
  | some id => simp [eq_text_of_identityAt? hid, eq_comm]

section Removed

variable (hdefaults : ∀ key v, c.defaults.find? key = some v → v.isRegular = true) {path p : Path}
  {w v : Value} (hreopens : c.StaysReopened path → c.reopensAround path = true)
  (hv : valueAfter (removedOutcome path p w (c.outcomeAround path w)).change? (some w) = some v)
  {second : Outcome} (hstays : c.StaysReopened path → second = c.resetOutcome path v)
  (hpassed : ¬ c.StaysReopened path → second = .unchanged)

include hreopens hv hstays hpassed

theorem removedOutcome_again (hbefore : (c.outcomeAround path w).change? = none) :
    (removedOutcome path p w (c.outcomeAround path w)).change? = none ∧
      (removedOutcome path p v second).change? = none := by
  have hsecond : ∀ change, (removedOutcome path p w (c.outcomeAround path w)).change? ≠
      some change := by
    intro change h
    obtain ⟨-, hid, rfl⟩ := (removesIdentity_iff hbefore).1 h
    obtain ⟨id, hid⟩ := Option.isSome_iff_exists.1 hid
    rw [h, eq_text_of_identityAt? hid] at hv
    cases hv
  have hfirst := Option.eq_none_iff_forall_ne_some.2 hsecond
  rw [hfirst] at hv
  obtain rfl : w = v := Option.some.inj hv
  refine ⟨hfirst, ?_⟩
  have hquiet : second.change? = none := by
    by_cases h : c.StaysReopened path
    · rw [outcomeAround, if_pos (hreopens h)] at hbefore
      rw [hstays h, hbefore]
    · rw [hpassed h]
      rfl
  rw [Option.eq_none_iff_forall_ne_some]
  intro change h
  exact hsecond change ((removesIdentity_iff hbefore).2 ((removesIdentity_iff hquiet).1 h))

include hdefaults
omit hreopens

/-- A key that has returned to its default is taken back if it is a list with elements and stays
reopened, or if it now holds the identity of the instance. -/
theorem removedOutcome_after {first : Change}
    (hbefore : (c.outcomeAround path w).change? = some first) {change : Change} :
    (removedOutcome path p v second).change? = some change ↔
      first = .update v ∧
        ((v.isFilled = true ∧ c.StaysReopened path) ∨
          (path.parent? = some p ∧ (identityAt? path v).isSome = true)) ∧
        change = .remove v := by
  rw [removedOutcome_of_change hbefore, hbefore] at hv
  have hreset : (c.resetOutcome path w).change? = some first := by
    rw [outcomeAround] at hbefore
    split_ifs at hbefore
    · exact hbefore
    · cases hbefore
  have hagain : ∀ change, (c.resetOutcome path v).change? = some change ↔
      first = .update v ∧ v.isFilled = true ∧ change = .remove v := by
    intro change
    rw [resetOutcome_after hdefaults (hreset ▸ hv), hreset, Option.some_inj]
  have hupdate : (identityAt? path v).isSome = true → first = .update v := fun h => by
    obtain ⟨id, hid⟩ := Option.isSome_iff_exists.1 h
    exact update_of_text hreset hv hid
  cases hsecond : second.change? with
  | some again =>
    have hstay : c.StaysReopened path := by
      by_contra h
      rw [hpassed h] at hsecond
      cases hsecond
    rw [hstays hstay] at hsecond
    obtain ⟨rfl, hfilled, rfl⟩ := (hagain again).1 hsecond
    rw [removedOutcome_of_change (hstays hstay ▸ hsecond), hstays hstay, hsecond]
    constructor
    · intro h
      cases h
      exact ⟨rfl, .inl ⟨hfilled, hstay⟩, rfl⟩
    · rintro ⟨-, -, rfl⟩
      rfl
  | none =>
    rw [removesIdentity_iff hsecond]
    constructor
    · rintro ⟨hparent, hid, rfl⟩
      exact ⟨hupdate hid, .inr ⟨hparent, hid⟩, rfl⟩
    · rintro ⟨rfl, ⟨hfilled, hstay⟩ | ⟨hparent, hid⟩, rfl⟩
      · rw [hstays hstay, (hagain _).2 ⟨rfl, hfilled, rfl⟩] at hsecond
        cases hsecond
      · exact ⟨hparent, hid, rfl⟩

end Removed

/-! ## The second comparison -/

theorem outcomeAround_next (hc : c.IsProper) {key : String}
    (h : c.next.current.contains key = true) (v : Value) :
    (c.StaysReopened (parse key) →
        c.next.outcomeAround (parse key) v = c.resetOutcome (parse key) v) ∧
      (¬ c.StaysReopened (parse key) → c.next.outcomeAround (parse key) v = .unchanged) := by
  have hstays := reopensAround_next hc h
  exact ⟨fun hs => if_pos (hstays.2 hs), fun hs => if_neg fun hr => hs (hstays.1 hr)⟩

section Second

variable (hc : c.IsProper)
  (hdefaults : ∀ key v, c.defaults.find? key = some v → v.isRegular = true)

include hc hdefaults

theorem currentOutcome_next {key : String} (hkey : c.desired.find? key = none)
    (hx : isExcluded c.options (parse key) = false) {w v : Value}
    (hw : c.current.find? key = some w) (hv : c.next.current.find? key = some v)
    (hafter : valueAfter (c.currentOutcome c.reopened key w).change? (some w) = some v)
    {change : Change} :
    (c.next.currentOutcome c.next.reopened key v).change? = some change ↔
      (c.currentOutcome c.reopened key w).change? = some (.update v) ∧
        c.TakesBack (parse key) v ∧ change = .remove v := by
  have hremoved : c.next.removedAround? (parse key) = c.removedAround? (parse key) := by
    rw [removedAround?, removedAround?, hc.desiredInstances_eq]
    rfl
  have hnext := currentOutcome_eq (c := c.next) hkey hx v
  rw [hnext, hremoved, TakesBack]
  rw [currentOutcome_eq hkey hx] at hafter ⊢
  cases hp : c.removedAround? (parse key) with
  | none =>
    rw [hp] at hafter
    exact resetOutcome_after hdefaults hafter
  | some p =>
    rw [hp] at hafter
    have hreopens := reopensAround_of_staysReopened hc (Dict.contains_eq_true.2 ⟨w, hw⟩)
    obtain ⟨hstays, hpassed⟩ := outcomeAround_next hc (Dict.contains_eq_true.2 ⟨v, hv⟩) v
    simp only at hafter ⊢
    cases hbefore : (c.outcomeAround (parse key) w).change? with
    | none =>
      obtain ⟨hfirst, hsecond⟩ := removedOutcome_again hreopens hafter hstays hpassed hbefore
      rw [hfirst, hsecond]
      simp
    | some first =>
      rw [removedOutcome_of_change hbefore, hbefore, Option.some_inj]
      exact removedOutcome_after hdefaults hafter hstays hpassed hbefore

variable (hdesired : ∀ key v, c.desired.find? key = some v → v.isRegular = true)

include hdesired

/-- **A second comparison takes back what the first has written, and changes nothing else.** -/
theorem find?_next {key : String} {change : Change} :
    c.next.report.changes.find? key = some change ↔
      ∃ v, c.desired.find? key = none ∧ c.report.changes.find? key = some (.update v) ∧
        c.next.current.find? key = some v ∧ c.TakesBack (parse key) v ∧ change = .remove v := by
  cases hkey : c.desired.find? key with
  | some v =>
    have hreport := find?_report_of_desired (c := c.next) hkey
    rw [desiredChange?_next hc hkey (hdesired key v hkey)] at hreport
    simp [hreport]
  | none =>
    have hsecond := find?_report_of_not_desired (c := c.next) hkey
    rw [hsecond, find?_report_of_not_desired hkey]
    cases hv : c.next.current.find? key with
    | none => simp
    | some v =>
      obtain ⟨w, hw, hafter⟩ := exists_current_of_next hkey hv
      rw [hw, Option.bind_some, Option.bind_some]
      cases hx : isExcluded c.options (parse key) with
      | true =>
        have hnone : c.next.currentOutcome c.next.reopened key v = .unchanged :=
          currentOutcome_of_excluded v hx
        rw [hnone, currentOutcome_of_excluded w hx]
        simp [Outcome.unchanged]
      | false =>
        rw [currentOutcome_next hc hdefaults hkey hx hw hv hafter]
        constructor
        · rintro ⟨hfirst, htakes, rfl⟩
          exact ⟨v, rfl, hfirst, rfl, htakes, rfl⟩
        · rintro ⟨u, -, hfirst, heq, htakes, rfl⟩
          cases heq
          exact ⟨hfirst, htakes, rfl⟩

end Second

end Comparison

/-- **When a second run finds nothing to do.** The desired configuration is read from a document
and the defaults come from a schema. Once the changes of a comparison have been applied, another
comparison has no changes if and only if none of the defaults that the first one has written to
keys that are not desired is taken back. -/
theorem second_run_idle_iff {document schema : Json} (hdocument : document.isRegular = true)
    (hschema : schema.isRegular = true) {desired : Tree} (hread : Tree.ofJson document = .ok desired)
    (current : FlatConfig) (options : DiffOptions) :
    let defaults := (Catalogue.ofDocument schema).defaults
    let changes := (diff desired.flatten current defaults options).changes
    let reached := current.after changes
    (diff desired.flatten reached defaults options).changes.isEmpty = true ↔
      ∀ key v, desired.flatten.find? key = none → changes.find? key = some (.update v) →
        reached.find? key = some v →
          ¬ (Comparison.of desired.flatten current defaults options).TakesBack (parse key) v := by
  intro defaults changes reached
  have hproper := Comparison.isProper_of desired.flatten current defaults options
  have hdesired : ∀ key v, desired.flatten.find? key = some v → v.isRegular = true :=
    fun _ _ => regular_flatten (regular_ofJson hdocument hread)
  have hdefaults : ∀ key v, defaults.find? key = some v → v.isRegular = true :=
    fun _ _ => Catalogue.regular_defaults hschema
  have hnext := @Comparison.find?_next _ hproper hdefaults hdesired
  rw [Dict.isEmpty_eq_true]
  constructor
  · intro hidle key v hkey hchange hreached htakes
    have hfind := hnext.2 ⟨v, hkey, hchange, hreached, htakes, rfl⟩
    exact nomatch (hidle key).symm.trans hfind
  · intro h key
    rw [Option.eq_none_iff_forall_ne_some]
    intro change hchange
    obtain ⟨v, hkey, hfirst, hreached, htakes, -⟩ := hnext.1 hchange
    exact h key v hkey hfirst hreached htakes

/-- A text at a list that is not desired becomes the default list, which is then removed. -/
theorem second_run_not_idle_of_list :
    let document : Json := .object []
    let schema : Json := .object [("properties", .object [("service", .object [("properties",
      .object [("feature-key-files", .object [("default",
        .array [.string "/etc/aerospike/features.conf"])])])])])]
    let desired : Tree := []
    let current : Tree := [("service", .nested [("feature-key-files", .text "/opt/features.conf")])]
    let defaults := (Catalogue.ofDocument schema).defaults
    let changes := (diff desired.flatten current.flatten defaults {}).changes
    let reached := current.flatten.after changes
    document.isRegular = true ∧ schema.isRegular = true ∧ Tree.ofJson document = .ok desired ∧
      (diff desired.flatten reached defaults {}).changes.isEmpty = false := by
  intro document schema desired current defaults changes reached
  have hdocument : document.isRegular = true := by decide
  have hschema : schema.isRegular = true := by decide
  have hread : Tree.ofJson document = .ok desired := rfl
  refine ⟨hdocument, hschema, hread, Bool.eq_false_iff.2 fun hidle => ?_⟩
  have hfirst : changes.find? "service.feature-key-files" =
      some (.update (.list ["/etc/aerospike/features.conf"])) := by rfl
  have hkept : changes.isDestroyed (parse "service.feature-key-files") = false := by
    decide +kernel
  have hreached : reached.find? "service.feature-key-files" =
      some (.list ["/etc/aerospike/features.conf"]) := by
    rw [FlatConfig.find?_after, FlatConfig.valueAfter?, hkept, hfirst]
    rfl
  have hnone := (second_run_idle_iff hdocument hschema hread current.flatten {}).1 hidle
  refine hnone "service.feature-key-files" (.list ["/etc/aerospike/features.conf"]) rfl hfirst
    hreached ?_
  rfl

end Reconfig
