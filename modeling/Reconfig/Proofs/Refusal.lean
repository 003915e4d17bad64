import Reconfig.Proofs.Addressing
import Reconfig.Proofs.Lifecycle
import Reconfig.Proofs.Plan
import Reconfig.Proofs.SecondRun

/-!
# Lists that are kept whole

A list whose sections cannot be told apart is kept whole under its key, and the comparison takes
all its current instances for gone. No plan comes of it: where such a list is desired and differs
from what is in force, it is among the arranged changes, and it has no commands.

* `text_of_name_leaf`: the name of an instance is a text;
* `destroys_of_has_remove`: a change that removes a name destroys an instance;
* **`mem_rearrange_of_desired`**: no change of a desired key is left out;
* `find?_changes_of_repeated`: a list that differs is replaced;
* `Reconciler.exists_defaults`: the difference that a plan is made from;
* **`no_plan_of_repeated`**: there are no commands, and no plan sends any.
-/

namespace Reconfig

open Vocabulary (nameField)
open Reconfig.Path (parse render)

/-! ## Names -/

section Names

variable {t : Tree} (ht : t.isSound = true)

include ht

theorem text_of_name_leaf {list : Path} {id : String} {v : Value}
    (h : ((list.select id).child nameField, v) ∈ fieldLeaves t) : v = .text id := by
  have hlookup : t.flatten.find? (render ((list.select id).child nameField)) = some v :=
    find?_flatten_render ht h
  have hbelow := h
  rw [Path.select_child] at hbelow
  rcases identity_leaf ht hbelow with htext | ⟨hnone, -⟩
  · rw [find?_flatten_render ht htext] at hlookup
    exact (Option.some.inj hlookup).symm
  · exact absurd h (hnone v)

theorem text_of_find?_name {key : String} {list : Path} {id : String}
    (hkey : parse key = (list.select id).child nameField) {v : Value}
    (h : t.flatten.find? key = some v) : v = .text id := by
  rw [find?_flatten ht, hkey] at h
  exact text_of_name_leaf ht h

theorem not_endsInName_of_repeated {key : String} {sections : List Tree}
    (h : t.flatten.find? key = some (.repeated sections)) : ¬ (parse key).EndsInName := by
  rintro ⟨list, id, hends⟩
  have hkey : parse key = (Path.select list id).child nameField := by
    rw [hends, Path.select_child]
  cases text_of_find?_name ht hkey h

end Names

/-! ## Changes that are left out -/

theorem changeTo?_text {a b : String} {change : Change}
    (h : (Value.text a).changeTo? (.text b) = some change) : change = .update (.text a) := by
  obtain ⟨-, heq⟩ := Option.ite_none_left_eq_some.1 h
  exact (Option.some.inj heq).symm

section Comparison

variable {desired current : Tree} (hd : desired.isSound = true) (hc : current.isSound = true)
  (defaults : Dict Value) (options : DiffOptions)

include hd hc

theorem destroys_of_has_remove {key : String} {p : Path} {id : String} (hsel : p.Selects id)
    (hkey : parse key = p.child nameField) {change : Change}
    (h : (diff desired.flatten current.flatten defaults options).changes.find? key = some change)
    (hremove : change.has .remove = true) : change.destroys = true := by
  obtain ⟨base, name, rfl⟩ := hsel
  rw [diff] at h
  cases hdesired : desired.flatten.find? key with
  | some v =>
    rw [Comparison.find?_report_of_desired hdesired] at h
    obtain rfl := text_of_find?_name hd hkey hdesired
    obtain ⟨-, ⟨w, hw, hchange⟩ | hnew | ⟨id', rfl⟩⟩ := Comparison.desiredChange?_eq_some h
    · obtain rfl := text_of_find?_name hc hkey hw
      rw [changeTo?_text hchange] at hremove
      cases hremove
    · cases hnew
      cases hremove
    · cases hremove
  | none =>
    rw [Comparison.find?_report_of_not_desired hdesired] at h
    obtain ⟨w, hw, h⟩ := Option.bind_eq_some_iff.1 h
    obtain rfl := text_of_find?_name hc hkey hw
    cases hx : isExcluded options (parse key) with
    | true =>
      rw [Comparison.currentOutcome_of_excluded _ hx] at h
      cases h
    | false =>
      have not_reset : ∀ path, ((Comparison.of desired.flatten current.flatten defaults
          options).resetOutcome path (.text id)).change? ≠ some change := by
        intro path hreset
        obtain ⟨v, rfl⟩ := resetOutcome_text hreset
        cases hremove
      rw [Comparison.currentOutcome_eq hdesired hx] at h
      split at h
      · exact absurd h (not_reset _)
      · rw [removedOutcome_eq, Comparison.outcomeAround] at h
        rcases Option.or_eq_some_iff.1 h with h | ⟨-, h⟩
        · split_ifs at h
          · exact absurd h (not_reset _)
          · cases h
        · obtain ⟨-, h⟩ := Option.ite_none_right_eq_some.1 h
          obtain ⟨id', -, rfl⟩ := Option.map_eq_some_iff.1 h
          rfl

theorem not_carries_of_desired {key : String} {place : ReplicationPlace}
    (hkey : desired.flatten.contains key = true) {p : Path} {id : String} (hsel : p.Selects id)
    (hat : ∀ q, place.IsAt q → q = p.child nameField) (hbelow : p <+: parse key) :
    ¬ Carries (diff desired.flatten current.flatten defaults options).changes.entries place
      .remove := by
  rintro ⟨⟨key', change⟩, hmem, hplace, hremove⟩
  have hparse : parse key' = p.child nameField := hat _ (hplace ▸ placeOf_isAt key')
  have hchange := Dict.mem_entries.1 hmem
  have hdestroys := destroys_of_has_remove hd hc defaults options hsel hparse hchange hremove
  have hkept := Comparison.isDestroyed_of_desired
    (Comparison.isProper_of desired.flatten current.flatten defaults options) hkey
  have hgone := isDestroyed_eq_true.2
    ⟨key', change, p, hchange, hdestroys, by rw [hparse, Path.parent?_child], hbelow⟩
  exact nomatch hkept.symm.trans hgone

/-- **No change of a desired key is left out.** -/
theorem mem_rearrange_of_desired {key : String} (hkey : desired.flatten.contains key = true)
    {change : Change}
    (h : (diff desired.flatten current.flatten defaults options).changes.find? key = some change) :
    (key, change) ∈
      rearrange (diff desired.flatten current.flatten defaults options).changes := by
  refine mem_rearrange.2 ⟨Dict.mem_entries.2 h, ?_⟩
  have hdestination : ∀ dc, destinationPath dc <+: parse key →
      (departures (diff desired.flatten current.flatten defaults
        options).changes).destinations.contains dc = false := by
    intro dc hbelow
    rw [← Bool.not_eq_true, List.contains_iff_mem, mem_departures_destinations]
    exact not_carries_of_desired hd hc defaults options hkey (destinationPath_selects dc)
      (fun _ hq => hq) hbelow
  have hnamespace : ∀ dc ns, namespacePath dc ns <+: parse key →
      (departures (diff desired.flatten current.flatten defaults
        options).changes).namespaces.contains (dc, ns) = false := by
    intro dc ns hbelow
    rw [← Bool.not_eq_true, List.contains_iff_mem, mem_departures_namespaces]
    exact not_carries_of_desired hd hc defaults options hkey (namespacePath_selects dc ns)
      (fun _ hq => hq) hbelow
  have hat := placeOf_isAt key
  rw [phase?]
  cases hplace : placeOf key with
  | destination dc =>
    dsimp only
    split_ifs <;> rfl
  | namespaceOf dc ns =>
    dsimp only
    split_ifs <;> rfl
  | destinationField dc field =>
    rw [hplace] at hat
    dsimp only
    rw [hdestination dc (Path.prefix_of_eq_child hat)]
    rfl
  | destinationNested dc =>
    rw [hplace] at hat
    dsimp only
    rw [hdestination dc hat]
    rfl
  | namespaceField dc ns =>
    rw [hplace] at hat
    dsimp only
    rw [hdestination dc ((List.prefix_append _ _).trans hat), hnamespace dc ns hat]
    rfl
  | root => rfl
  | outside => rfl

/-! ## Lists that differ -/

omit hd hc in
/-- **A list that differs from what is in force is replaced.** -/
theorem find?_changes_of_repeated {desired current : FlatConfig} {key : String}
    {sections : List Tree} (hkey : desired.find? key = some (.repeated sections))
    (hx : isExcluded options (parse key) = false)
    (hcurrent : ∀ w, current.find? key = some w →
      w.isNested = false ∧ (Value.repeated sections).same w = false) :
    (diff desired current defaults options).changes.find? key =
      some (.update (.repeated sections)) := by
  have hidentity : ∀ path, identityAt? path (.repeated sections) = none :=
    fun path => identityAt?_eq_none path rfl
  rw [diff, Comparison.find?_report_of_desired hkey, Comparison.desiredChange?]
  simp only [Comparison.of, hx, Bool.false_eq_true, if_false]
  cases hw : current.find? key with
  | some w =>
    obtain ⟨hnested, hsame⟩ := hcurrent w hw
    cases w with
    | nested fields => cases hnested
    | scalar s | list items | repeated others =>
      simp only [Value.changeTo?, hsame, Bool.false_eq_true, if_false]
  | none =>
    simp only [hidentity]
    cases (parse key).section? with
    | none => rfl
    | some p => exact ite_self _

end Comparison

/-! ## Plans -/

theorem Reconciler.exists_defaults {r : Reconciler} {build : String} {desired current : Tree}
    {report : DiffReport} (h : r.diff build desired current = .ok report) :
    ∃ defaults, report =
      Reconfig.diff desired.flatten current.flatten defaults r.settings.diffOptions := by
  rw [Reconciler.diff] at h
  split at h
  · cases h
  · rw [Registry.diff] at h
    cases hc : r.registry.catalogue build with
    | error e =>
      rw [hc] at h
      cases h
    | ok catalogue =>
      rw [hc] at h
      cases h
      exact ⟨catalogue.defaults, rfl⟩

theorem Reconciler.exists_commands_of_live {r : Reconciler} {build : String}
    {desired current : Tree} {source? : Option InfoSource} {commands : List String}
    (h : (r.plan build desired current source?).1 = .ok (.live commands)) :
    ∃ defaults, ((Reconfig.diff desired.flatten current.flatten defaults
      r.settings.diffOptions).changes.compile source?).1 = .ok commands := by
  cases hdiff : r.diff build desired current with
  | error e =>
    rw [plan_of_error hdiff] at h
    cases h
  | ok report =>
    obtain ⟨catalogue, hc⟩ := exists_catalogue hdiff
    obtain ⟨defaults, rfl⟩ := exists_defaults hdiff
    refine ⟨defaults, ?_⟩
    by_cases hlive : ChangeSet.rejected catalogue.dynamic (Reconfig.diff desired.flatten
        current.flatten defaults r.settings.diffOptions).changes = []
    · rw [plan_of_live hdiff hc hlive] at h
      dsimp only at h
      split at h
      · cases h
      · rename_i hcompile
        cases h
        exact hcompile
    · rw [plan_of_rejected hdiff hc hlive] at h
      cases h

/-- **No part of a plan is made where a list is kept whole.** A desired list whose sections cannot
be told apart stands at a key that is compared, and there is no current value or another one that
is not a section. Then the changes have no commands, whatever else they are, and no plan with these
options sends any. -/
theorem no_plan_of_repeated {desired current : Tree} (hd : desired.isSound = true)
    (hc : current.isSound = true) (options : DiffOptions) (source? : Option InfoSource)
    {key : String} {sections : List Tree}
    (hkey : desired.flatten.find? key = some (.repeated sections))
    (hx : isExcluded options (parse key) = false)
    (hcurrent : ∀ w, current.flatten.find? key = some w →
      w.isNested = false ∧ (Value.repeated sections).same w = false) :
    (∀ defaults, ∃ cause,
      ((diff desired.flatten current.flatten defaults options).changes.compile source?).1 =
        .error cause) ∧
      ∀ (r : Reconciler) (build : String), r.settings.diffOptions = options → ∀ commands,
        (r.plan build desired current source?).1 ≠ .ok (.live commands) := by
  have hrefused : ∀ defaults, ∃ cause,
      ((diff desired.flatten current.flatten defaults options).changes.compile source?).1 =
        .error cause := by
    intro defaults
    have hchange := find?_changes_of_repeated defaults options hkey hx hcurrent
    have hmem := mem_rearrange_of_desired hd hc defaults options
      (Dict.contains_eq_true.2 ⟨_, hkey⟩) hchange
    have halone := exists_error_of_repeated key sections source?
      (not_endsInName_of_repeated hd hkey)
    exact exists_error_of_refused hmem halone
  refine ⟨hrefused, ?_⟩
  rintro r build rfl commands hlive
  obtain ⟨defaults, hcommands⟩ := Reconciler.exists_commands_of_live hlive
  obtain ⟨cause, hcause⟩ := hrefused defaults
  rw [hcause] at hcommands
  cases hcommands

/-- Two namespaces of one name take the place of a namespace. -/
theorem no_plan_of_equal_names :
    let desired : Tree := [("namespaces", .repeated [[("name", .text "test")],
      [("name", .text "test"), ("replication-factor", .scalar (.uint 2))]]),
      ("service", .nested [("proto-fd-max", .scalar (.uint 15000))])]
    let current : Tree := [("namespaces", .repeated [[("name", .text "test")]])]
    (∀ defaults, ∃ cause,
      ((diff desired.flatten current.flatten defaults {}).changes.compile none).1 =
        .error cause) ∧
      ∀ (r : Reconciler) (build : String), r.settings.diffOptions = {} → ∀ commands,
        (r.plan build desired current none).1 ≠ .ok (.live commands) := by
  intro desired current
  have hdesired : desired.flatten.find? "namespaces" = some (.repeated [[("name", .text "test")],
      [("name", .text "test"), ("replication-factor", .scalar (.uint 2))]]) := rfl
  have hmissing : current.flatten.contains "namespaces" = false := by decide +kernel
  refine no_plan_of_repeated (by decide) (by decide) {} none hdesired (by decide) fun w hw => ?_
  rw [Dict.contains_eq_false.1 hmissing] at hw
  cases hw

end Reconfig
