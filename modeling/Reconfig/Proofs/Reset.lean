import Reconfig.Proofs.Sweep

/-!
# The return to a default

A current key that is not desired, while all instances around it are, returns to what it is without
configuration. How it does so depends on its value and its default alone: it makes no difference
whether an instance around it is reopened, which keys are visited first, or what else is desired.

* `Value.Returns`: the rules by which a value returns to its default;
* `returns_resetOutcome`: a return to a default follows them;
* `on_report_of_kept`: what is reported on a key all of whose instances are desired;
* **`reset_is_complete`**.
-/

namespace Reconfig

open Reconfig.Path (parse)

/-- The value is a single value or a list of sections. -/
def Value.isWhole : Value → Bool
  | .scalar _ => true
  | .repeated _ => true
  | _ => false

/-- **How a value returns to its default**, given the default if there is one: all elements of a
list are removed, a section stays, and any other value is updated if it differs from the default,
which has to be known. -/
inductive Value.Returns (default? : Option Value) : Value → Outcome → Prop
  | emptied {items : List String} : items ≠ [] →
      Returns default? (.list items) ⟨some (.remove (.list items)), false⟩
  | empty : Returns default? (.list []) ⟨none, false⟩
  | nested {fields : Tree} : Returns default? (.nested fields) ⟨none, false⟩
  | updated {d w : Value} : w.isWhole = true → default? = some d → d.changeTo? w ≠ none →
      Returns default? w ⟨some (.update d), false⟩
  | unchanged {d w : Value} : w.isWhole = true → default? = some d → d.changeTo? w = none →
      Returns default? w ⟨none, false⟩
  | unknown {w : Value} : w.isWhole = true → default? = none → Returns default? w ⟨none, true⟩

namespace Comparison

theorem resetOutcome_of_isWhole (c : Comparison) (path : Path) {w : Value}
    (hw : w.isWhole = true) : c.resetOutcome path w =
      (c.defaults.find? path.logicalKey).elim ⟨none, true⟩ fun d =>
        if (d.changeTo? w).isSome then ⟨some (.update d), false⟩ else .unchanged := by
  cases w with
  | list items => cases hw
  | nested fields => cases hw
  | scalar s | repeated sections =>
    simp only [resetOutcome]
    cases c.defaults.find? path.logicalKey <;> rfl

theorem returns_resetOutcome (c : Comparison) (path : Path) (w : Value) :
    w.Returns (c.defaults.find? path.logicalKey) (c.resetOutcome path w) := by
  have whole : ∀ {w : Value}, w.isWhole = true →
      w.Returns (c.defaults.find? path.logicalKey) (c.resetOutcome path w) := by
    intro w hw
    rw [resetOutcome_of_isWhole c path hw]
    cases hd : c.defaults.find? path.logicalKey with
    | none => exact .unknown hw rfl
    | some d =>
      rw [Option.elim_some]
      split_ifs with h
      · exact .updated hw rfl (Option.isSome_iff_ne_none.1 h)
      · exact .unchanged hw rfl (Option.not_isSome_iff_eq_none.1 h)
  cases w with
  | list items =>
    cases items with
    | nil => exact .empty
    | cons x rest => exact .emptied (List.cons_ne_nil x rest)
  | nested fields => exact .nested
  | scalar s => exact whole rfl
  | repeated sections => exact whole rfl

/-- **What is reported on a key all of whose instances are desired.** -/
theorem on_report_of_kept {c : Comparison} {key : String} {w : Value}
    (hw : c.current.find? key = some w) (hkey : c.desired.find? key = none)
    (hx : isExcluded c.options (parse key) = false)
    (hkept : ∀ s ∈ (parse key).instancePaths, s ∈ c.desiredInstances) :
    c.report.on key = c.resetOutcome (parse key) w := by
  have hnone : c.removedAround? (parse key) = none :=
    List.find?_eq_none.2 fun s hs => by simpa using hkept s hs
  rw [on_report, hkey, hw]
  dsimp only
  rw [currentOutcome_eq hkey hx, hnone]

end Comparison

/-- **The return to a default is complete, and independent of what else is compared.** A current key
that is not left out and not desired, while all instances around it are desired, is reported by the
rules of its value and its default. A comparison key by key finds the same in whatever order it
visits the keys, hence whether an instance around the key is filled before or not at all; and so
does the comparison of any other configurations in which the key has that value, is not desired,
and has all its instances desired. -/
theorem reset_is_complete (desired current : FlatConfig) (defaults : Dict Value)
    (options : DiffOptions) {key : String} {w : Value} (hw : current.find? key = some w)
    (hkey : desired.find? key = none) (hx : isExcluded options (parse key) = false)
    (hkept : ∀ s ∈ (parse key).instancePaths, s ∈ desired.instancePaths) :
    w.Returns (defaults.find? (parse key).logicalKey)
        ((diff desired current defaults options).on key) ∧
      (∀ visited visited' : List (String × Value), visited.Perm desired.entries →
        visited'.Perm current.entries →
          ((Comparison.of desired current defaults options).sweep visited visited').on key =
            (diff desired current defaults options).on key) ∧
      ∀ desired' current' : FlatConfig, current'.find? key = some w → desired'.find? key = none →
        (∀ s ∈ (parse key).instancePaths, s ∈ desired'.instancePaths) →
          (diff desired' current' defaults options).on key =
            (diff desired current defaults options).on key := by
  have hreset : (diff desired current defaults options).on key =
      (Comparison.of desired current defaults options).resetOutcome (parse key) w :=
    Comparison.on_report_of_kept (c := .of desired current defaults options) hw hkey hx hkept
  refine ⟨?_, fun visited visited' hdesired hcurrent => ?_,
    fun desired' current' hw' hkey' hkept' => ?_⟩
  · rw [hreset]
    exact Comparison.returns_resetOutcome (.of desired current defaults options) (parse key) w
  · rw [diff, Comparison.sweep_eq_report hdesired hcurrent]
  · rw [hreset]
    exact Comparison.on_report_of_kept (c := .of desired' current' defaults options) hw' hkey' hx
      hkept'

/-- A field of a set of a namespace, both of which are reopened by new fields, visited in the order
of the keys and against it. -/
theorem reset_is_complete_of_reopened :
    let desired : FlatConfig := ⟨[("namespaces.\x7ba\x7d.new", .text "x"),
      ("namespaces.\x7ba\x7d.sets.\x7bs\x7d.new", .text "x")], by decide⟩
    let current : FlatConfig := ⟨[("namespaces.\x7ba\x7d.name", .text "a"),
      ("namespaces.\x7ba\x7d.sets.\x7bs\x7d.old", .text "y")], by decide⟩
    let defaults : Dict Value := ⟨[("namespaces.sets.old", .text "z")], by decide⟩
    (Value.text "y").Returns (some (.text "z"))
        ((diff desired current defaults {}).on "namespaces.\x7ba\x7d.sets.\x7bs\x7d.old") ∧
      ((Comparison.of desired current defaults {}).sweep desired.entries.reverse
          current.entries.reverse).on "namespaces.\x7ba\x7d.sets.\x7bs\x7d.old" =
        (diff desired current defaults {}).on "namespaces.\x7ba\x7d.sets.\x7bs\x7d.old" := by
  intro desired current defaults
  have hw : current.find? "namespaces.\x7ba\x7d.sets.\x7bs\x7d.old" = some (.text "y") := rfl
  have h := reset_is_complete desired current defaults {} hw rfl (by decide +kernel)
    (by decide +kernel)
  exact ⟨h.1, h.2.1 _ _ (List.reverse_perm _) (List.reverse_perm _)⟩

end Reconfig
