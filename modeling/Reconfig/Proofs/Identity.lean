import Reconfig.Proofs.Removal

/-!
# Changes of identities

What a comparison reports at the name of an instance: the instance is created if it is new, and
removed if it is gone while the instances around it are kept. Below an outermost instance that is
gone, nothing else is reported.

* `nameKey`: the key of the name of an instance;
* `find?_name_of_new`, `find?_name_of_kept`, **`find?_name_of_removed`**: the change at a name;
* `reopensAround_eq_false`, **`find?_below_removed`**: the keys below an outermost instance that
  is gone;
* `mem_instancePaths_of_change`: the instances around a change.
-/

namespace Reconfig

open Vocabulary (nameField)
open Reconfig.Path (render parse)

/-- The key of the name of an instance. -/
def nameKey (p : Path) : String := render (p.child nameField)

theorem parse_nameKey {t : Tree} (ht : t.isSound = true) {p : Path} {v : Value}
    (hleaf : (p.child nameField, v) ∈ fieldLeaves t) : parse (nameKey p) = p.child nameField := by
  rw [nameKey, parse_render_leaf ht hleaf]

theorem find?_nameKey {t : Tree} (ht : t.isSound = true) {p : Path} {v : Value}
    (hleaf : (p.child nameField, v) ∈ fieldLeaves t) : t.flatten.find? (nameKey p) = some v := by
  rw [nameKey, find?_flatten_render ht hleaf]

/-! ## The name of an instance -/

section Names

variable {desired current : Tree} (hd : desired.isSound = true) (hc : current.isSound = true)
  (defaults : Dict Value) (options : DiffOptions) {p : Path} {id : String}

include hd in
/-- **A new instance is created.** -/
theorem find?_name_of_new (hsel : p.Selects id)
    (hleaf : (p.child nameField, .text id) ∈ fieldLeaves desired)
    (hnew : p ∉ current.flatten.instancePaths)
    (hx : isExcluded options (p.child nameField) = false) :
    (diff desired.flatten current.flatten defaults options).changes.find? (nameKey p) =
      some (.add (.text id)) := by
  have hkey := parse_nameKey hd hleaf
  have hid : identityAt? (parse (nameKey p)) (.text id) = some id := by
    rw [hkey, identityAt?_child hsel (.inl rfl)]
    exact if_pos rfl
  obtain ⟨list, id', rfl⟩ := hsel.exists_select
  have hsection : (parse (nameKey (list.select id'))).section? = some (list.select id') := by
    rw [hkey]
    exact Path.section?_select_append _ _ rfl
  have hnone : current.flatten.find? (nameKey (list.select id')) = none := by
    rw [← Dict.contains_eq_false]
    exact contains_eq_false_of_below hnew (Path.mem_instancePaths_of_section? hsection)
  have habsent : current.flatten.instancePaths.contains (list.select id') = false := by
    simpa using hnew
  rw [diff, Comparison.find?_report_of_desired (find?_nameKey hd hleaf), Comparison.desiredChange?]
  simp only [Comparison.of, hkey, hx, hnone, Bool.false_eq_true, if_false]
  rw [hkey] at hsection hid
  simp only [hsection, habsent, hid, Bool.false_eq_true, if_false]

include hd hc in
/-- **A kept instance keeps its name.** -/
theorem find?_name_of_kept (hdesired : (p.child nameField, .text id) ∈ fieldLeaves desired)
    (hcurrent : (p.child nameField, .text id) ∈ fieldLeaves current) :
    (diff desired.flatten current.flatten defaults options).changes.find? (nameKey p) = none := by
  have hagrees : (Scalar.text id).agrees (.text id) = true := by simp [Scalar.agrees]
  have hnone : (Value.text id).changeTo? (.text id) = none := if_pos hagrees
  rw [diff, Comparison.find?_report_of_desired (find?_nameKey hd hdesired),
    Comparison.desiredChange?]
  simp only [Comparison.of, find?_nameKey hc hcurrent, hnone, ite_self]

include hc in
/-- **An instance that is gone is removed**, unless its name returns to a default. -/
theorem find?_name_of_removed (hsel : p.Selects id)
    (hp : IsRemoved desired.flatten current.flatten p)
    (hleaf : (p.child nameField, .text id) ∈ fieldLeaves current)
    (hx : isExcluded options (p.child nameField) = false) :
    (diff desired.flatten current.flatten defaults options).changes.find? (nameKey p) =
        some (.remove (.text id)) ∨
      ((Comparison.of desired.flatten current.flatten defaults options).reopensAround p = true ∧
        ∃ v, (diff desired.flatten current.flatten defaults options).changes.find? (nameKey p) =
          some (.update v)) := by
  have hkey := parse_nameKey hc hleaf
  have hbelow : p <+: parse (nameKey p) := by
    rw [hkey]
    exact List.prefix_append _ _
  have hkx : isExcluded options (parse (nameKey p)) = false := by rwa [hkey]
  rw [hp.find?_changes defaults options (find?_nameKey hc hleaf) hbelow hkx, hkey,
    removalAt_child hsel (.inl rfl), Comparison.outcomeBefore]
  split_ifs with hreopens
  · cases hreset : ((Comparison.of desired.flatten current.flatten defaults options).resetOutcome
        (p.child nameField) (.text id)).change? with
    | none => exact .inl rfl
    | some change =>
      obtain ⟨v, rfl⟩ := resetOutcome_text hreset
      exact .inr ⟨hreopens, v, rfl⟩
  · exact .inl rfl

end Names

/-! ## Outermost instances -/

section Outermost

variable {desired current : FlatConfig} (defaults : Dict Value) (options : DiffOptions)
  {p : Path} {key : String}

theorem reopensAround_eq_false (hp : p ∉ desired.instancePaths)
    (houter : p.instancePaths = [p]) :
    (Comparison.of desired current defaults options).reopensAround p = false := by
  rw [← Bool.not_eq_true, Comparison.reopensAround, List.any_eq_true]
  rintro ⟨s, hs, hsp⟩
  obtain ⟨key, hkey, -, -, hsection, -⟩ := mem_reopened.1 hs
  have hmem := Path.mem_instancePaths_of_section? hsection
  have heq : s ∈ p.instancePaths :=
    Path.mem_instancePaths.2 ⟨List.isPrefixOf_iff_prefix.1 hsp, (Path.mem_instancePaths.1 hmem).2⟩
  rw [houter, List.mem_singleton] at heq
  rw [heq] at hmem
  exact hp (mem_instancePaths_of_contains hkey hmem)

/-- **Below an outermost instance that is gone nothing is reported** but at its own fields. -/
theorem find?_below_removed (hp : IsRemoved desired current p)
    (houter : p.instancePaths = [p]) (hbelow : p <+: parse key)
    (hdeep : (parse key).parent? ≠ some p) :
    (diff desired current defaults options).changes.find? key = none := by
  have hdesired := contains_eq_false_of_below hp.notDesired
    (hp.mem_instancePaths_of_prefix hbelow)
  cases hw : current.find? key with
  | none => exact (not_reported defaults options hdesired (.inl hw)).1
  | some w =>
    cases hx : isExcluded options (parse key) with
    | true => exact (not_reported defaults options hdesired (.inr hx)).1
    | false =>
      have hquiet : (Comparison.of desired current defaults options).reopensAround p = false :=
        reopensAround_eq_false defaults options hp.notDesired houter
      rw [hp.find?_changes defaults options hw hbelow hx, Comparison.outcomeBefore, hquiet,
        removalAt, if_neg hdeep]
      rfl

theorem mem_instancePaths_of_change {change : Change}
    (h : (diff desired current defaults options).changes.find? key = some change)
    (hp : p ∈ (parse key).instancePaths) :
    p ∈ desired.instancePaths ∨ p ∈ current.instancePaths := by
  rw [diff, Comparison.find?_report] at h
  rcases Option.or_eq_some_iff.1 h with h | ⟨-, h⟩
  · obtain ⟨w, hw, -⟩ := Option.bind_eq_some_iff.1 h
    exact .inr (mem_instancePaths_of_contains (Dict.contains_eq_true.2 ⟨w, hw⟩) hp)
  · obtain ⟨v, hv, -⟩ := Option.bind_eq_some_iff.1 h
    exact .inl (mem_instancePaths_of_contains (Dict.contains_eq_true.2 ⟨v, hv⟩) hp)

end Outermost

end Reconfig
