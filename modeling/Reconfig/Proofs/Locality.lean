import Reconfig.Proofs.Surroundings

/-!
# Comparisons are local to the outermost instance

The keys of a flat configuration fall into those of each outermost instance, such as a namespace or
a destination, and those that no instance is around. A comparison treats every outermost instance
by itself, and every key without an instance by itself.

* `Path.outermost?`: the first instance around a path;
* `Dict.within`, `DiffReport.within`: the entries inside an outermost instance;
* `outermost?_of_mem`, `Path.Meets.outermost?_eq`: keys that share an instance share the outermost;
* `contains_instancePaths_within`: the instances inside an outermost instance;
* **`report_is_local`**: what is reported inside an instance is what a comparison of the inside
  alone reports, and what is reported on a key without an instance depends on that key alone.
-/

namespace Reconfig

open Reconfig.Path (parse)

/-- The outermost instance around a path. -/
def Path.outermost? (p : Path) : Option Path := p.instancePaths.head?

/-- The entries whose keys have the given outermost instance. -/
def Dict.within {α : Type} (s : Path) (d : Dict α) : Dict α :=
  d.filter fun key _ => (parse key).outermost? = some s

/-- The report on the keys that have the given outermost instance. -/
def DiffReport.within (s : Path) (r : DiffReport) : DiffReport :=
  ⟨r.changes.within s, r.unresolved.within s⟩

/-! ## Look-ups -/

namespace Dict

variable {α : Type}

theorem find?_within (s : Path) (d : Dict α) (key : String) :
    (d.within s).find? key = if (parse key).outermost? = some s then d.find? key else none := by
  rw [Option.ext_iff]
  intro value
  rw [← mem_entries, within, filter, List.mem_filter, mem_entries, decide_eq_true_eq]
  split_ifs with h <;> simp [h]

theorem contains_within (s : Path) (d : Dict α) (key : String) :
    (d.within s).contains key =
      if (parse key).outermost? = some s then d.contains key else false := by
  rw [contains, find?_within, contains]
  split_ifs <;> rfl

end Dict

/-! ## Keys that share an instance -/

/-- **An instance around a path has the same outermost instance.** -/
theorem Path.outermost?_of_mem {p s : Path} (h : s ∈ p.instancePaths) :
    p.outermost? = s.outermost? := by
  obtain ⟨⟨rest, rfl⟩, list, id, rfl⟩ := mem_instancePaths.1 h
  rw [outermost?, outermost?, instancePaths_append, instancePaths_select]
  cases instancePaths list <;> rfl

theorem Path.Meets.outermost?_eq {p q : Path} (h : p.Meets q) : q.outermost? = p.outermost? := by
  rcases h with rfl | ⟨s, hp, hq⟩
  · rfl
  · rw [outermost?_of_mem hq, outermost?_of_mem hp]

/-- **The instances inside an outermost instance** are those of the keys inside it. -/
theorem contains_instancePaths_within {s p : Path} (h : p.outermost? = some s)
    (flat : FlatConfig) :
    flat.instancePaths.contains p = (FlatConfig.instancePaths (flat.within s)).contains p := by
  rw [Bool.eq_iff_iff, List.contains_iff_mem, List.contains_iff_mem, mem_instancePaths_iff,
    mem_instancePaths_iff]
  refine exists_congr fun key => and_congr_left fun hmem => ?_
  rw [Dict.contains_within, Path.outermost?_of_mem hmem, if_pos h]

/-! ## Reports -/

variable (desired current : FlatConfig) (defaults : Dict Value) (options : DiffOptions)

theorem agreesAround_within {s path : Path} (h : path.outermost? = some s) :
    (Comparison.of desired current defaults options).AgreesAround
      (.of (desired.within s) (current.within s) defaults options) path where
  options_eq := rfl
  default_eq := rfl
  desired_eq key _ hmeets := by
    have hkey := hmeets.outermost?_eq.trans h
    exact ((desired.find?_within s key).trans (if_pos hkey)).symm
  current_eq key _ hmeets := by
    have hkey := hmeets.outermost?_eq.trans h
    exact ((current.find?_within s key).trans (if_pos hkey)).symm
  desiredInstances_eq p hp :=
    contains_instancePaths_within ((Path.outermost?_of_mem hp).symm.trans h) desired
  currentInstances_eq p hp :=
    contains_instancePaths_within ((Path.outermost?_of_mem hp).symm.trans h) current

/-- **What is reported inside an outermost instance** is what a comparison of the inside alone
reports. -/
theorem report_within (s : Path) : (diff desired current defaults options).within s =
    diff (desired.within s) (current.within s) defaults options := by
  refine DiffReport.ext_sameAt fun key => ?_
  rw [DiffReport.SameAt, DiffReport.within, Dict.find?_within, Dict.contains_within]
  split_ifs with h
  · exact (agreesAround_within desired current defaults options h).sameAt
  · have hmissing : ∀ flat : FlatConfig, (flat.within s).find? key = none := fun flat =>
      (flat.find?_within s key).trans (if_neg h)
    obtain ⟨hchange, hunresolved⟩ := Comparison.report_of_missing
      (c := .of (desired.within s) (current.within s) defaults options) (hmissing desired)
      (hmissing current)
    exact ⟨hchange.symm, hunresolved.symm⟩

theorem report_of_no_instance {desired' current' : FlatConfig} {defaults' : Dict Value}
    {key : String} (hkey : (parse key).outermost? = none)
    (hdesired : desired.find? key = desired'.find? key)
    (hcurrent : current.find? key = current'.find? key)
    (hdefaults : defaults.find? (parse key).logicalKey =
      defaults'.find? (parse key).logicalKey) :
    (diff desired current defaults options).SameAt (diff desired' current' defaults' options)
      key := by
  have hnone : (parse key).instancePaths = [] := List.head?_eq_none_iff.1 hkey
  have halone : ∀ other, (parse key).Meets (parse other) → other = key := by
    rintro other (h | ⟨s, hs, -⟩)
    · exact Path.parse_injective h.symm
    · rw [hnone] at hs
      cases hs
  exact Comparison.AgreesAround.sameAt
    { options_eq := rfl
      default_eq := hdefaults
      desired_eq := fun other _ hmeets => halone other hmeets ▸ hdesired
      current_eq := fun other _ hmeets => halone other hmeets ▸ hcurrent
      desiredInstances_eq := fun s hs => by
        rw [hnone] at hs
        cases hs
      currentInstances_eq := fun s hs => by
        rw [hnone] at hs
        cases hs }

/-- The configurations differ inside one outermost instance alone. -/
def FlatConfig.SameOutside (s : Path) (a b : FlatConfig) : Prop :=
  ∀ key, (parse key).outermost? ≠ some s → a.find? key = b.find? key

theorem FlatConfig.SameOutside.within_eq {s t : Path} {a b : FlatConfig} (h : a.SameOutside s b)
    (hst : t ≠ s) : a.within t = b.within t := by
  refine Dict.ext_find? fun key => ?_
  rw [Dict.find?_within, Dict.find?_within]
  split_ifs with hkey
  · exact h key fun hs => hst (Option.some.inj (hkey.symm.trans hs))
  · rfl

/-- **Comparisons are local to the outermost instance.** What is reported inside an outermost
instance is what a comparison of the inside alone reports; what is reported on a key without an
instance depends on its values and its default alone; so changes of the configurations inside one
outermost instance are seen in the report there and nowhere else. -/
theorem report_is_local :
    (∀ s, (diff desired current defaults options).within s =
        diff (desired.within s) (current.within s) defaults options) ∧
      (∀ (desired' current' : FlatConfig) (defaults' : Dict Value) (key : String),
        (parse key).outermost? = none → desired.find? key = desired'.find? key →
          current.find? key = current'.find? key →
            defaults.find? (parse key).logicalKey = defaults'.find? (parse key).logicalKey →
              (diff desired current defaults options).SameAt
                (diff desired' current' defaults' options) key) ∧
      ∀ (s : Path) (desired' current' : FlatConfig), desired.SameOutside s desired' →
        current.SameOutside s current' → ∀ key, (parse key).outermost? ≠ some s →
          (diff desired current defaults options).SameAt
            (diff desired' current' defaults options) key := by
  refine ⟨report_within desired current defaults options, fun desired' current' defaults' key =>
    report_of_no_instance desired current defaults options, ?_⟩
  intro s desired' current' hdesired hcurrent key hkey
  cases ht : (parse key).outermost? with
  | none =>
    exact report_of_no_instance desired current defaults options ht (hdesired key hkey)
      (hcurrent key hkey) rfl
  | some t =>
    have hts : t ≠ s := fun heq => hkey (ht.trans (congrArg some heq))
    have hwithin : (diff desired current defaults options).within t =
        (diff desired' current' defaults options).within t := by
      rw [report_within, report_within, hdesired.within_eq hts, hcurrent.within_eq hts]
    have hinside : ∀ r : DiffReport, (r.within t).SameAt r key := fun r =>
      ⟨(Dict.find?_within t _ key).trans (if_pos ht),
        (Dict.contains_within t _ key).trans (if_pos ht)⟩
    have hsame := hinside (diff desired current defaults options)
    rw [hwithin] at hsame
    have hsame' := hinside (diff desired' current' defaults options)
    exact ⟨hsame.1.symm.trans hsame'.1, hsame.2.symm.trans hsame'.2⟩

/-- A new field of one namespace, which reopens that namespace, leaves the report on another one as
it is. -/
theorem report_is_local_of_new_field :
    let desired : FlatConfig := ⟨[("namespaces.\x7ba\x7d.name", .text "a"),
      ("namespaces.\x7bb\x7d.name", .text "b")], by decide⟩
    let edited : FlatConfig := ⟨[("namespaces.\x7ba\x7d.name", .text "a"),
      ("namespaces.\x7bb\x7d.name", .text "b"), ("namespaces.\x7bb\x7d.new", .text "x")],
      by decide⟩
    let current : FlatConfig := ⟨[("namespaces.\x7ba\x7d.name", .text "a"),
      ("namespaces.\x7ba\x7d.old", .text "y"), ("namespaces.\x7bb\x7d.name", .text "b")],
      by decide⟩
    (diff desired current .empty {}).SameAt (diff edited current .empty {})
      "namespaces.\x7ba\x7d.old" := by
  intro desired edited current
  refine (report_is_local desired current .empty {}).2.2
    [.field "namespaces", .selector "b"] edited current (fun key hkey => ?_) (fun _ _ => rfl) _
    (by decide)
  have hne : key ≠ "namespaces.\x7bb\x7d.new" := by
    rintro rfl
    exact hkey (by decide)
  change List.lookup key desired.entries = List.lookup key edited.entries
  simp [desired, edited, List.lookup_cons, beq_eq_false_iff_ne.2 hne]

end Reconfig
