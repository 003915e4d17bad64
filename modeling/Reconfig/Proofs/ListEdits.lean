import Mathlib.Data.List.Basic
import Reconfig.Proofs.Reach

/-!
# Edits of lists are set differences

Where a list of texts is compared with another one, or with a single value that counts as a list,
the elements to add are those that the desired list has and the current one lacks, and the elements
to remove are those the other way round. The two sides of a comparison mirror each other.

* `IsDifference`: the elements of a list that another one lacks, each once, as they are first seen;
* **`isDifference_missingFrom`**: the elements that an edit carries;
* `Change.reversed`, `setChange?_swap`: the edit the other way round;
* `changeTo?_of_list`: a list is compared by its elements;
* **`list_edit_is_difference`**: what a comparison reports at a key with a list.
-/

namespace Reconfig

open Reconfig.Path (parse)

/-! ## Differences -/

/-- The list holds the items that the others lack, each once, in the order in which they are first
seen among the items. -/
structure IsDifference (items others difference : List String) : Prop where
  mem_iff : ∀ x, x ∈ difference ↔ x ∈ items ∧ x ∉ others
  nodup : difference.Nodup
  firstSeen : difference.Pairwise fun x y => items.idxOf x < items.idxOf y

theorem firstSeen_eraseDups (items : List String) (p : String → Bool) :
    (items.filter p).eraseDups.Pairwise fun x y => items.idxOf x < items.idxOf y := by
  induction items generalizing p with
  | nil => exact .nil
  | cons a rest ih =>
    -- away from the first item, positions are those in the rest, one further
    have later : ∀ {l : List String}, (∀ x ∈ l, x ≠ a) →
        l.Pairwise (fun x y => rest.idxOf x < rest.idxOf y) →
          l.Pairwise fun x y => (a :: rest).idxOf x < (a :: rest).idxOf y := by
      intro l hne hl
      refine hl.imp_of_mem fun {x y} hx hy hlt => ?_
      rw [List.idxOf_cons_ne _ (hne x hx).symm, List.idxOf_cons_ne _ (hne y hy).symm]
      omega
    cases ha : p a with
    | true =>
      have hrest : (rest.filter p).filter (fun b => !b == a) =
          rest.filter fun b => (!b == a) && p b := List.filter_filter
      rw [List.filter_cons_of_pos ha, List.eraseDups_cons, hrest, List.pairwise_cons]
      have hne : ∀ x ∈ (rest.filter fun b => (!b == a) && p b).eraseDups, x ≠ a := by
        intro x hx
        rw [List.mem_eraseDups, List.mem_filter, Bool.and_eq_true] at hx
        simpa using hx.2.1
      refine ⟨fun x hx => ?_, later hne (ih _)⟩
      rw [List.idxOf_cons_self, List.idxOf_cons_ne _ (hne x hx).symm]
      exact Nat.succ_pos _
    | false =>
      rw [List.filter_cons_of_neg (by simp [ha])]
      refine later (fun x hx => ?_) (ih p)
      rw [List.mem_eraseDups, List.mem_filter] at hx
      rintro rfl
      rw [ha] at hx
      exact Bool.false_ne_true hx.2

/-- **The elements that an edit adds or removes are a difference of the two lists.** -/
theorem isDifference_missingFrom (items others : List String) :
    IsDifference items others (missingFrom items others) where
  mem_iff _ := mem_missingFrom
  nodup := by
    refine (firstSeen_eraseDups items _).imp fun {x y} hlt heq => ?_
    rw [heq] at hlt
    exact Nat.lt_irrefl _ hlt
  firstSeen := firstSeen_eraseDups items _

/-! ## The other way round -/

/-- The change with added and removed elements exchanged. -/
def Change.reversed : Change → Change
  | .update v => .update v
  | .add v => .remove v
  | .remove v => .add v
  | .exchange added removed => .exchange removed added

theorem Change.ofLists?_swap (added removed : List String) :
    ofLists? removed added = (ofLists? added removed).map reversed := by
  unfold ofLists?
  cases side? added <;> cases side? removed <;> rfl

/-- **The edit from the desired list to the current one** has its sides exchanged. -/
theorem setChange?_swap (desired current : List String) :
    setChange? current desired = (setChange? desired current).map Change.reversed :=
  Change.ofLists?_swap _ _

theorem Change.value?_ofLists (added removed : List String) :
    (ofLists? added removed).bind (·.value? .add) = side? added ∧
      (ofLists? added removed).bind (·.value? .remove) = side? removed ∧
      (ofLists? added removed).bind (·.value? .update) = none := by
  unfold ofLists?
  cases side? added <;> cases side? removed <;> exact ⟨rfl, rfl, rfl⟩

/-! ## Keys with a list -/

/-- **A list is compared by its elements** with another list or a single value. -/
theorem changeTo?_of_list {v w : Value} {d c : List String} (hd : v.elements? = some d)
    (hc : w.elements? = some c) (hlist : v.list?.isSome = true ∨ w.list?.isSome = true) :
    v.changeTo? w = setChange? d c := by
  cases v with
  | nested fields => cases hd
  | repeated sections => cases hd
  | list items =>
    cases hd
    cases w with
    | nested fields => cases hc
    | repeated sections => cases hc
    | list others =>
      cases hc
      rfl
    | scalar s =>
      cases hc
      rfl
  | scalar s =>
    cases hd
    cases w with
    | nested fields => cases hc
    | repeated sections => cases hc
    | list others =>
      cases hc
      rfl
    | scalar t =>
      rcases hlist with h | h <;> cases h

theorem find?_diff_of_both {desired current : FlatConfig} (defaults : Dict Value)
    {options : DiffOptions} {key : String} {v w : Value} (hv : desired.find? key = some v)
    (hw : current.find? key = some w) (hx : isExcluded options (parse key) = false) :
    (diff desired current defaults options).changes.find? key = v.changeTo? w := by
  rw [diff, Comparison.find?_report_of_desired hv, Comparison.desiredChange?]
  simp only [Comparison.of, hx, hw, Bool.false_eq_true, if_false]

/-- **An edit of a list is a set difference, and mirrors.** At a key that is not left out, where one
value is a list and the other one is a list or counts as one, the report adds the elements that are
desired and not current and removes those that are current and not desired, each once, as they are
first seen; it leaves out a side without elements, and replaces nothing. There is no change if and
only if the elements are the same, and the comparison of the current configuration with the desired
one has the two sides exchanged. -/
theorem list_edit_is_difference (desired current : FlatConfig) (defaults : Dict Value)
    (options : DiffOptions) {key : String} {v w : Value} {d c : List String}
    (hv : desired.find? key = some v) (hw : current.find? key = some w)
    (hx : isExcluded options (parse key) = false)
    (hlist : v.list?.isSome = true ∨ w.list?.isSome = true)
    (hd : v.elements? = some d) (hc : w.elements? = some c) :
    let change? := (diff desired current defaults options).changes.find? key
    ∃ added removed, IsDifference d c added ∧ IsDifference c d removed ∧
      change?.bind (·.value? .add) = Change.side? added ∧
      change?.bind (·.value? .remove) = Change.side? removed ∧
      change?.bind (·.value? .update) = none ∧
      (change? = none ↔ ∀ x, x ∈ d ↔ x ∈ c) ∧
      (diff current desired defaults options).changes.find? key = change?.map Change.reversed := by
  intro change?
  have hchange : change? = setChange? d c :=
    (find?_diff_of_both defaults hv hw hx).trans (changeTo?_of_list hd hc hlist)
  have hswapped : (diff current desired defaults options).changes.find? key = setChange? c d :=
    (find?_diff_of_both defaults hw hv hx).trans (changeTo?_of_list hc hd hlist.symm)
  obtain ⟨hadd, hremove, hupdate⟩ := Change.value?_ofLists (missingFrom d c) (missingFrom c d)
  refine ⟨missingFrom d c, missingFrom c d, isDifference_missingFrom d c,
    isDifference_missingFrom c d, ?_⟩
  rw [hswapped, hchange]
  exact ⟨hadd, hremove, hupdate, setChange?_eq_none_iff, setChange?_swap d c⟩

/-- Repeated elements in both lists, at a key of an instance in which another key is new. -/
theorem list_edit_is_difference_of_repeated :
    let desired : FlatConfig := .ofList [("namespaces.\x7ba\x7d.ids", .list ["2", "1", "2", "3"]),
      ("namespaces.\x7ba\x7d.name", .text "a"), ("namespaces.\x7ba\x7d.new", .text "x")]
    let current : FlatConfig := .ofList [("namespaces.\x7ba\x7d.ids", .list ["4", "3", "4"]),
      ("namespaces.\x7ba\x7d.name", .text "a")]
    let change? := (diff desired current .empty {}).changes.find? "namespaces.\x7ba\x7d.ids"
    ∃ added removed, IsDifference ["2", "1", "2", "3"] ["4", "3", "4"] added ∧
      IsDifference ["4", "3", "4"] ["2", "1", "2", "3"] removed ∧
      change?.bind (·.value? .add) = Change.side? added ∧
      change?.bind (·.value? .remove) = Change.side? removed ∧
      change?.bind (·.value? .update) = none ∧
      (change? = none ↔ ∀ x, x ∈ ["2", "1", "2", "3"] ↔ x ∈ ["4", "3", "4"]) ∧
      (diff current desired .empty {}).changes.find? "namespaces.\x7ba\x7d.ids" =
        change?.map Change.reversed :=
  list_edit_is_difference _ _ .empty {} rfl rfl (by decide) (.inl rfl) rfl rfl

end Reconfig
