import Reconfig.Proofs.Reordering
import Reconfig.Proofs.Surroundings

/-!
# What a comparison leaves out

Markers of positions are left out of every comparison, and fields that describe a single node on
request. Of such keys a report sees only which instances they are in: neither their values nor the
order of sections has an influence on it.

* `FlatConfig.Indistinct`: equal configurations but for the keys that are left out;
* `agreesAround_of_indistinct`: such configurations have the same surroundings everywhere;
* **`report_ignores_excluded`**: they are reported on alike, and trees whose sections are in another
  order are.
-/

namespace Reconfig

open Reconfig.Path (parse)

/-- The configurations have the same values at the keys that a comparison does not leave out, and
the same instances. -/
structure FlatConfig.Indistinct (options : DiffOptions) (a b : FlatConfig) : Prop where
  find?_eq : ∀ key, isExcluded options (parse key) = false → a.find? key = b.find? key
  mem_instancePaths_iff : ∀ s, s ∈ a.instancePaths ↔ s ∈ b.instancePaths

variable {options : DiffOptions}

theorem FlatConfig.Indistinct.contains_instancePaths {a b : FlatConfig}
    (h : a.Indistinct options b) (s : Path) :
    a.instancePaths.contains s = b.instancePaths.contains s := by
  rw [Bool.eq_iff_iff, List.contains_iff_mem, List.contains_iff_mem]
  exact h.mem_instancePaths_iff s

section Reports

variable {desired desired' current current' : FlatConfig}
  (hdesired : desired.Indistinct options desired') (hcurrent : current.Indistinct options current')

include hdesired hcurrent

theorem agreesAround_of_indistinct (defaults : Dict Value) (path : Path) :
    (Comparison.of desired current defaults options).AgreesAround
      (.of desired' current' defaults options) path where
  options_eq := rfl
  default_eq := rfl
  desired_eq key hx _ := hdesired.find?_eq key hx
  current_eq key hx _ := hcurrent.find?_eq key hx
  desiredInstances_eq s _ := hdesired.contains_instancePaths s
  currentInstances_eq s _ := hcurrent.contains_instancePaths s

theorem diff_eq_of_indistinct (defaults : Dict Value) :
    diff desired current defaults options = diff desired' current' defaults options :=
  DiffReport.ext_sameAt fun key =>
    (agreesAround_of_indistinct hdesired hcurrent defaults (parse key)).sameAt

end Reports

theorem FlatConfig.SameButMarkers.indistinct {a b : FlatConfig} (h : a.SameButMarkers b) :
    a.Indistinct options b where
  find?_eq key hx := h.find?_eq key (Bool.or_eq_false_iff.1 hx).1
  mem_instancePaths_iff s := by
    rw [Reconfig.mem_instancePaths_iff, Reconfig.mem_instancePaths_iff]
    exact exists_congr fun key => by rw [h.contains_eq key]

/-- **A report is not influenced by what is left out.** Configurations that differ in the values of
keys that are left out only, and have the same instances, have the same report; no key that is left
out is reported; and trees whose sections are in another order have the same report, wherever the
sections are told apart by their identities. -/
theorem report_ignores_excluded (defaults : Dict Value) (options : DiffOptions) :
    (∀ desired desired' current current' : FlatConfig, desired.Indistinct options desired' →
        current.Indistinct options current' →
          diff desired current defaults options = diff desired' current' defaults options) ∧
      (∀ (desired current : FlatConfig) (key : String),
        isExcluded options (parse key) = true →
          (diff desired current defaults options).changes.find? key = none ∧
            (diff desired current defaults options).unresolved.contains key = false) ∧
      ∀ desired desired' current current' : Tree, desired.Reordered desired' →
        current.Reordered current' →
          diff desired.flatten current.flatten defaults options =
            diff desired'.flatten current'.flatten defaults options := by
  refine ⟨fun _ _ _ _ hdesired hcurrent => diff_eq_of_indistinct hdesired hcurrent defaults,
    fun _ _ _ hx => Comparison.report_of_excluded hx, fun _ _ _ _ hdesired hcurrent => ?_⟩
  exact diff_eq_of_indistinct (sameButMarkers_of_reordered hdesired).indistinct
    (sameButMarkers_of_reordered hcurrent).indistinct defaults

/-- Namespaces in another order and another port are not reported. -/
theorem report_ignores_excluded_of_moved :
    let a : Tree := [("name", .text "a")]
    let b : Tree := [("name", .text "b"), ("x", .text "1")]
    let desired : Tree := [("namespaces", .repeated [a, b])]
    let moved : Tree := [("namespaces", .repeated [b, a])]
    let current : FlatConfig := ⟨[("service.port", .scalar (.uint 3000))], by decide⟩
    let other : FlatConfig := ⟨[("service.port", .scalar (.uint 4000))], by decide⟩
    diff desired.flatten moved.flatten .empty {} = diff moved.flatten moved.flatten .empty {} ∧
      diff moved.flatten current .empty {} = diff moved.flatten other .empty {} ∧
        (diff moved.flatten current .empty {}).changes.find? "service.port" = none := by
  intro a b desired moved current other
  have hreordered : desired.Reordered moved := by
    refine .cons _ (.repeated (by decide) ?_ (.swap b a [])) .nil
    exact .cons (.refl a) (.cons (.refl b) .nil)
  have hexcluded : isExcluded {} (parse "service.port") = true := by decide
  have hindistinct : current.Indistinct {} other := by
    refine ⟨fun key hx => ?_, fun s => Iff.rfl⟩
    have hne : key ≠ "service.port" := by
      rintro rfl
      rw [hexcluded] at hx
      cases hx
    change List.lookup key current.entries = List.lookup key other.entries
    simp [current, other, List.lookup_cons, beq_eq_false_iff_ne.2 hne]
  obtain ⟨hsame, hnone, horder⟩ := report_ignores_excluded .empty {}
  refine ⟨horder _ _ _ _ hreordered (.refl moved), ?_, (hnone _ current _ hexcluded).1⟩
  exact hsame _ _ _ _ ((sameButMarkers_of_reordered (.refl moved)).indistinct) hindistinct

/-- Within a list that is kept whole, because its sections have no identities, the order of sections
is part of the value. -/
theorem reordered_reported_of_kept_whole :
    let sections : List Tree := [[("name", .text "p")], [("name", .text "q")]]
    let tree (inner : List Tree) : Tree :=
      [("service", .nested [("odd", .repeated [[("x", .repeated inner)]])])]
    (identities? sections).isSome = true ∧ sections.Perm sections.reverse ∧
      diff (tree sections).flatten (tree sections).flatten .empty {} ≠
        diff (tree sections).flatten (tree sections.reverse).flatten .empty {} := by
  intro sections tree
  refine ⟨by decide, sections.reverse_perm.symm, fun heq => ?_⟩
  have hnone : (diff (tree sections).flatten (tree sections).flatten .empty {}).changes.contains
      "service.odd" = false := by decide +kernel
  rw [heq] at hnone
  have hsome : (diff (tree sections).flatten (tree sections.reverse).flatten .empty
      {}).changes.contains "service.odd" = true := by decide +kernel
  exact nomatch hsome.symm.trans hnone

end Reconfig
