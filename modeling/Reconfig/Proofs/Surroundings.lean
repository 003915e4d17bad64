import Reconfig.Proofs.Key
import Reconfig.Proofs.Outcome

/-!
# The surroundings of a key

What a report says about a key depends on the key's own values and default, and on the keys with
which it shares an instance. Two comparisons that have the same surroundings of a key report the
same about it.

* `Path.Meets`: two paths share an instance, or are equal;
* `Comparison.AgreesAround`: two comparisons have the same surroundings of a path;
* `reopensAround_eq`, `desiredChange?_eq`, `currentOutcome_eq`: what depends on them;
* `DiffReport.SameAt`, `DiffReport.ext_sameAt`: reports that say the same about a key, about all;
* **`AgreesAround.sameAt`**: a report on a key depends on the surroundings of the key alone.
-/

namespace Reconfig

open Reconfig.Path (parse)

/-! ## Reports on one key -/

/-- Two reports say the same about a key. -/
def DiffReport.SameAt (r r' : DiffReport) (key : String) : Prop :=
  r.changes.find? key = r'.changes.find? key ∧
    r.unresolved.contains key = r'.unresolved.contains key

theorem TextSet.ext_contains {s t : TextSet} (h : ∀ key, s.contains key = t.contains key) :
    s = t := by
  refine Dict.ext_find? fun key => ?_
  have hkey := h key
  rw [Dict.contains, Dict.contains] at hkey
  -- a set maps its members to the one value there is, so that being found is all that counts
  cases hs : s.find? key <;> cases ht : t.find? key <;> rw [hs, ht] at hkey
  · cases hkey
  · cases hkey

/-- **Reports that say the same about every key are equal.** -/
theorem DiffReport.ext_sameAt {r r' : DiffReport} (h : ∀ key, r.SameAt r' key) : r = r' := by
  obtain ⟨changes, unresolved⟩ := r
  obtain ⟨changes', unresolved'⟩ := r'
  obtain rfl : changes = changes' := Dict.ext_find? fun key => (h key).1
  obtain rfl : unresolved = unresolved' := TextSet.ext_contains fun key => (h key).2
  rfl

/-! ## Surroundings -/

/-- The paths are equal, or an instance is around both. -/
def Path.Meets (p q : Path) : Prop := p = q ∨ ∃ s, s ∈ p.instancePaths ∧ s ∈ q.instancePaths

namespace Comparison

/-- Two comparisons have the same surroundings of a path: the default at it, the instances around
it, and the values of all keys that are compared and meet it. -/
structure AgreesAround (c d : Comparison) (path : Path) : Prop where
  options_eq : c.options = d.options
  default_eq : c.defaults.find? path.logicalKey = d.defaults.find? path.logicalKey
  desired_eq : ∀ key, isExcluded c.options (parse key) = false → path.Meets (parse key) →
    c.desired.find? key = d.desired.find? key
  current_eq : ∀ key, isExcluded c.options (parse key) = false → path.Meets (parse key) →
    c.current.find? key = d.current.find? key
  desiredInstances_eq : ∀ s ∈ path.instancePaths,
    c.desiredInstances.contains s = d.desiredInstances.contains s
  currentInstances_eq : ∀ s ∈ path.instancePaths,
    c.currentInstances.contains s = d.currentInstances.contains s

variable {c d : Comparison}

theorem AgreesAround.symm {path : Path} (h : c.AgreesAround d path) : d.AgreesAround c path where
  options_eq := h.options_eq.symm
  default_eq := h.default_eq.symm
  desired_eq key hx hmeets := (h.desired_eq key (h.options_eq ▸ hx) hmeets).symm
  current_eq key hx hmeets := (h.current_eq key (h.options_eq ▸ hx) hmeets).symm
  desiredInstances_eq s hs := (h.desiredInstances_eq s hs).symm
  currentInstances_eq s hs := (h.currentInstances_eq s hs).symm

theorem AgreesAround.reopensAround_of {path : Path} (h : c.AgreesAround d path)
    (hc : c.reopensAround path = true) : d.reopensAround path = true := by
  rw [reopensAround, List.any_eq_true] at hc ⊢
  obtain ⟨s, hs, hbegins⟩ := hc
  refine ⟨s, ?_, hbegins⟩
  obtain ⟨key, hdesired, hx, hnew, hsection, hcurrent⟩ := mem_reopened.1 hs
  have hinside := Path.mem_instancePaths_of_section? hsection
  have haround : s ∈ path.instancePaths := Path.mem_instancePaths.2
    ⟨List.isPrefixOf_iff_prefix.1 hbegins, (Path.mem_instancePaths.1 hinside).2⟩
  have hmeets : path.Meets (parse key) := .inr ⟨s, haround, hinside⟩
  rw [Dict.contains, h.desired_eq key hx hmeets] at hdesired
  rw [Dict.contains, h.current_eq key hx hmeets] at hnew
  rw [h.currentInstances_eq s haround] at hcurrent
  exact mem_reopened.2 ⟨key, hdesired, h.options_eq ▸ hx, hnew, hsection, hcurrent⟩

/-- **Whether an instance around a path is reopened** depends on its surroundings. -/
theorem AgreesAround.reopensAround_eq {path : Path} (h : c.AgreesAround d path) :
    c.reopensAround path = d.reopensAround path :=
  Bool.eq_iff_iff.2 ⟨h.reopensAround_of, h.symm.reopensAround_of⟩

section Key

variable {key : String} (h : c.AgreesAround d (parse key))
  (hx : isExcluded c.options (parse key) = false)

include h hx

theorem AgreesAround.desiredChange?_eq : c.desiredChange? key = d.desiredChange? key := by
  funext v
  have hinstances : ∀ s, (parse key).section? = some s →
      c.currentInstances.contains s = d.currentInstances.contains s := fun s hs =>
    h.currentInstances_eq s (Path.mem_instancePaths_of_section? hs)
  have hd : isExcluded d.options (parse key) = false := h.options_eq ▸ hx
  rw [desiredChange?, desiredChange?, hx, hd, h.current_eq key hx (.inl rfl)]
  cases hs : (parse key).section? with
  | none => rfl
  | some s => simp only [hinstances s hs]

theorem AgreesAround.currentOutcome_eq :
    c.currentOutcome c.reopened key = d.currentOutcome d.reopened key := by
  funext w
  have hd : isExcluded d.options (parse key) = false := h.options_eq ▸ hx
  cases hv : c.desired.find? key with
  | some v =>
    have hv' : d.desired.find? key = some v := (h.desired_eq key hx (.inl rfl)).symm.trans hv
    rw [currentOutcome_of_desired w (Dict.contains_eq_true.2 ⟨v, hv⟩),
      currentOutcome_of_desired w (Dict.contains_eq_true.2 ⟨v, hv'⟩)]
  | none =>
    have hv' : d.desired.find? key = none := (h.desired_eq key hx (.inl rfl)).symm.trans hv
    have hreset : c.resetOutcome (parse key) w = d.resetOutcome (parse key) w := by
      unfold resetOutcome
      rw [h.default_eq]
    have hremoved : c.removedAround? (parse key) = d.removedAround? (parse key) := by
      rw [removedAround?, removedAround?, ← List.head?_filter, ← List.head?_filter]
      exact congrArg List.head?
        (List.filter_congr fun s hs => congrArg (! ·) (h.desiredInstances_eq s hs))
    rw [Comparison.currentOutcome_eq hv hx, Comparison.currentOutcome_eq hv' hd, hremoved,
      outcomeAround, outcomeAround, h.reopensAround_eq, hreset]

end Key

/-! ## Reports -/

/-- **What a report says about a key depends on the surroundings of the key alone.** -/
theorem AgreesAround.sameAt {key : String} (h : c.AgreesAround d (parse key)) :
    c.report.SameAt d.report key := by
  cases hx : isExcluded c.options (parse key) with
  | true =>
    obtain ⟨hchange, hunresolved⟩ := report_of_excluded hx
    obtain ⟨hchange', hunresolved'⟩ := report_of_excluded (c := d) (h.options_eq ▸ hx)
    exact ⟨hchange.trans hchange'.symm, hunresolved.trans hunresolved'.symm⟩
  | false =>
    have hcurrent := h.current_eq key hx (.inl rfl)
    constructor
    · rw [find?_report, find?_report, hcurrent, h.desired_eq key hx (.inl rfl),
        h.currentOutcome_eq hx, h.desiredChange?_eq hx]
    · rw [Bool.eq_iff_iff, contains_unresolved, contains_unresolved, hcurrent,
        h.currentOutcome_eq hx]

end Comparison

end Reconfig
