import Mathlib.Data.List.Perm.Subperm
import Reconfig.Proofs.Dict
import Reconfig.Proofs.Regular

/-!
# Branches that agree

Where several branches of a schema give a default, it holds if they all give the same one. Values
are compared without regard to the order of their fields, and that is an equality: on values whose
numbers are finite and whose names are not repeated it is symmetric and transitive.

* `Scalar.same_symm`, `Scalar.same_trans`: single values;
* `sameFields_iff`: sections by their look-ups;
* **`Value.same_symm`**, **`Value.same_trans`**: all values;
* `Dict.find?_gather`: the values that are gathered at a key;
* `agreed?_concat`: agreement with one more branch;
* **`agreed?_isSome_iff`**, `agreed?_eq_some`: the value on which branches agree.
-/

namespace Reconfig

/-! ## Single values -/

theorem Binary64.same_iff {x y : Binary64} (hx : x.isFinite = true) (hy : y.isFinite = true) :
    x.same y = true ↔ x.steps? = y.steps? := by
  obtain ⟨a, ha⟩ := Option.isSome_iff_exists.1 hx
  obtain ⟨b, hb⟩ := Option.isSome_iff_exists.1 hy
  unfold same
  split
  · cases ha
  · rw [ha, hb]
    simp

namespace Scalar

theorem same_symm {a b : Scalar} (ha : a.isFinite = true) (hb : b.isFinite = true)
    (h : a.same b = true) : b.same a = true := by
  cases a with
  | float x =>
    cases b with
    | float y => exact (Binary64.same_iff hb ha).2 ((Binary64.same_iff ha hb).1 h).symm
    | text t | bool p | int i | uint n => cases h
  | text t | bool p | int i | uint n =>
    rw [eq_of_beq h]
    exact same_self hb

theorem same_trans {a b c : Scalar} (ha : a.isFinite = true) (hb : b.isFinite = true)
    (hc : c.isFinite = true) (hab : a.same b = true) (hbc : b.same c = true) :
    a.same c = true := by
  cases a with
  | float x =>
    cases b with
    | float y =>
      cases c with
      | float z =>
        have hxy := (Binary64.same_iff ha hb).1 hab
        have hyz := (Binary64.same_iff hb hc).1 hbc
        exact (Binary64.same_iff ha hc).2 (hxy.trans hyz)
      | text t | bool p | int i | uint n => cases hbc
    | text t | bool p | int i | uint n => cases hab
  | text t | bool p | int i | uint n =>
    rw [eq_of_beq hab]
    exact hbc

end Scalar

/-! ## Sections -/

theorem sameFields_iff {fields other : List (String × Value)} : sameFields fields other = true ↔
    ∀ f ∈ fields, ∃ w, other.lookup f.1 = some w ∧ f.2.same w = true := by
  induction fields with
  | nil => simp [sameFields]
  | cons f rest ih =>
    obtain ⟨name, v⟩ := f
    rw [sameFields, Bool.and_eq_true, ih, List.forall_mem_cons]
    refine and_congr_left fun _ => ?_
    cases other.lookup name <;> simp

theorem names_nodup {fields : List (String × Value)} (h : fieldsRegular fields = true) :
    (fields.map Prod.fst).Nodup :=
  List.pairwise_map.2 (regular_distinct h)

theorem exists_field_of_same {a b : List (String × Value)} (ha : fieldsRegular a = true)
    (hlen : a.length = b.length) (h : sameFields a b = true) {g : String × Value} (hg : g ∈ b) :
    ∃ f ∈ a, f.1 = g.1 := by
  have hsubset : a.map Prod.fst ⊆ b.map Prod.fst := by
    intro name hname
    obtain ⟨f, hf, rfl⟩ := List.mem_map.1 hname
    obtain ⟨w, hw, -⟩ := sameFields_iff.1 h f hf
    exact List.mem_map.2 ⟨(f.1, w), Dict.mem_of_lookup hw, rfl⟩
  have hperm : (a.map Prod.fst).Perm (b.map Prod.fst) :=
    (List.subperm_of_subset (names_nodup ha) hsubset).perm_of_length_le (by simp [hlen])
  exact List.mem_map.1 (hperm.mem_iff.2 (List.mem_map_of_mem hg))

theorem sameFields_symm {a b : List (String × Value)} (ha : fieldsRegular a = true)
    (hb : fieldsRegular b = true)
    (ih : ∀ f ∈ a, ∀ w : Value, f.2.isRegular = true → w.isRegular = true → f.2.same w = true →
      w.same f.2 = true)
    (h : (a.length == b.length && sameFields a b) = true) :
    (b.length == a.length && sameFields b a) = true := by
  rw [Bool.and_eq_true, beq_iff_eq] at h ⊢
  refine ⟨h.1.symm, sameFields_iff.2 fun g hg => ?_⟩
  obtain ⟨f, hf, heq⟩ := exists_field_of_same ha h.1 h.2 hg
  obtain ⟨w, hw, hsame⟩ := sameFields_iff.1 h.2 f hf
  obtain ⟨hlookup, hfreg⟩ := regular_of_mem ha hf
  obtain ⟨hglookup, hgreg⟩ := regular_of_mem hb hg
  rw [heq, hglookup, Option.some.injEq] at hw
  subst hw
  exact ⟨f.2, heq ▸ hlookup, ih f hf g.2 hfreg hgreg hsame⟩

theorem sameFields_trans {a b c : List (String × Value)} (ha : fieldsRegular a = true)
    (hb : fieldsRegular b = true) (hc : fieldsRegular c = true)
    (ih : ∀ f ∈ a, ∀ v w : Value, f.2.isRegular = true → v.isRegular = true →
      w.isRegular = true → f.2.same v = true → v.same w = true → f.2.same w = true)
    (hab : (a.length == b.length && sameFields a b) = true)
    (hbc : (b.length == c.length && sameFields b c) = true) :
    (a.length == c.length && sameFields a c) = true := by
  rw [Bool.and_eq_true, beq_iff_eq] at hab hbc ⊢
  refine ⟨hab.1.trans hbc.1, sameFields_iff.2 fun f hf => ?_⟩
  obtain ⟨v, hv, hfv⟩ := sameFields_iff.1 hab.2 f hf
  have hvmem := Dict.mem_of_lookup hv
  obtain ⟨w, hw, hvw⟩ := sameFields_iff.1 hbc.2 _ hvmem
  have hwmem := Dict.mem_of_lookup hw
  exact ⟨w, hw, ih f hf v w (regular_of_mem ha hf).2 (regular_of_mem hb hvmem).2
    (regular_of_mem hc hwmem).2 hfv hvw⟩

/-! ## Values -/

namespace Value

/-- **Equality of regular values is symmetric.** -/
theorem same_symm (v : Value) : ∀ w : Value, v.isRegular = true → w.isRegular = true →
    v.same w = true → w.same v = true := by
  induction v using Value.induct with
  | scalar s =>
    intro w hv hw h
    cases w with
    | scalar t => exact Scalar.same_symm hv hw h
    | list items | nested fields | «repeated» sections => cases h
  | list items =>
    intro w _ _ h
    cases w with
    | list others =>
      rw [same, beq_iff_eq] at h ⊢
      exact h.symm
    | scalar s | nested fields | «repeated» sections => cases h
  | nested fields ih =>
    intro w hv hw h
    cases w with
    | nested others => exact sameFields_symm hv hw ih h
    | scalar s | list items | «repeated» sections => cases h
  | «repeated» sections ih =>
    intro w hv hw h
    cases w with
    | scalar s | list items | nested fields => cases h
    | «repeated» others =>
      rw [isRegular] at hv hw
      rw [same] at h ⊢
      induction sections generalizing others with
      | nil =>
        cases others with
        | nil => rfl
        | cons t more => cases h
      | cons fields rest ihr =>
        cases others with
        | nil => cases h
        | cons t more =>
          rw [sectionsRegular, Bool.and_eq_true] at hv hw
          rw [sameSections, Bool.and_eq_true] at h ⊢
          exact ⟨sameFields_symm hv.1 hw.1 (ih fields List.mem_cons_self) h.1,
            ihr (fun u hu => ih u (List.mem_cons_of_mem _ hu)) hv.2 more hw.2 h.2⟩

/-- **Equality of regular values is transitive.** -/
theorem same_trans (u : Value) : ∀ v w : Value, u.isRegular = true → v.isRegular = true →
    w.isRegular = true → u.same v = true → v.same w = true → u.same w = true := by
  induction u using Value.induct with
  | scalar s =>
    intro v w hu hv hw huv hvw
    cases v with
    | scalar t =>
      cases w with
      | scalar r => exact Scalar.same_trans hu hv hw huv hvw
      | list items | nested fields | «repeated» sections => cases hvw
    | list items | nested fields | «repeated» sections => cases huv
  | list items =>
    intro v w _ _ _ huv hvw
    cases v with
    | list others =>
      rw [same, beq_iff_eq] at huv
      rw [huv]
      exact hvw
    | scalar s | nested fields | «repeated» sections => cases huv
  | nested fields ih =>
    intro v w hu hv hw huv hvw
    cases v with
    | nested others =>
      cases w with
      | nested more => exact sameFields_trans hu hv hw ih huv hvw
      | scalar s | list items | «repeated» sections => cases hvw
    | scalar s | list items | «repeated» sections => cases huv
  | «repeated» sections ih =>
    intro v w hu hv hw huv hvw
    cases v with
    | scalar s | list items | nested fields => cases huv
    | «repeated» others =>
      cases w with
      | scalar s | list items | nested fields => cases hvw
      | «repeated» more =>
        rw [isRegular] at hu hv hw
        rw [same] at huv hvw ⊢
        induction sections generalizing others more with
        | nil =>
          cases others with
          | nil => exact hvw
          | cons t ts => cases huv
        | cons fields rest ihr =>
          cases others with
          | nil => cases huv
          | cons t ts =>
            cases more with
            | nil => cases hvw
            | cons r rs =>
              rw [sectionsRegular, Bool.and_eq_true] at hu hv hw
              rw [sameSections, Bool.and_eq_true] at huv hvw ⊢
              exact ⟨sameFields_trans hu.1 hv.1 hw.1 (ih fields List.mem_cons_self) huv.1 hvw.1,
                ihr (fun x hx => ih x (List.mem_cons_of_mem _ hx)) hu.2 ts hv.2 huv.2 rs hw.2
                  hvw.2⟩

end Value

/-! ## Gathered values -/

namespace Dict

variable {α : Type}

/-- The values of the entries at a key, in the order of the list. -/
def valuesAt (l : List (String × α)) (key : String) : List α :=
  l.filterMap fun e => if e.1 = key then some e.2 else none

theorem valuesAt_concat (l : List (String × α)) (e : String × α) (key : String) :
    valuesAt (l ++ [e]) key = valuesAt l key ++ if e.1 = key then [e.2] else [] := by
  rw [valuesAt, List.filterMap_append]
  congr 1
  by_cases hkey : e.1 = key <;> simp [hkey]

/-- **The values that are gathered at a key** are those of its entries; without any there is no
list. -/
theorem find?_gather (l : List (String × α)) (key : String) :
    (gather l).find? key = if valuesAt l key = [] then none else some (valuesAt l key) := by
  induction l using List.reverseRecOn with
  | nil => rfl
  | append_singleton rest e ih =>
    rw [gather, List.foldl_append, List.foldl_cons, List.foldl_nil, ← gather, push, find?_insert,
      valuesAt_concat]
    by_cases hkey : e.1 = key
    · rw [if_pos hkey.symm, if_pos hkey, hkey, ih]
      by_cases hnil : valuesAt rest key = [] <;> simp [hnil]
    · rw [if_neg (Ne.symm hkey), if_neg hkey, List.append_nil, ih]

end Dict

/-! ## Agreement -/

namespace Catalogue

variable {values : List Value}

theorem agreed?_concat (values : List Value) (v : Value) :
    agreed? (values ++ [v]) =
      if values = [] then some v else (agreed? values).filter fun first => first.same v := by
  cases values with
  | nil => rfl
  | cons first rest =>
    rw [if_neg (List.cons_ne_nil _ _), List.cons_append, agreed?, agreed?, List.all_append]
    by_cases hall : (rest.all fun w => first.same w) = true
    · rw [if_pos hall, hall, Option.filter_some]
      simp
    · rw [if_neg hall, if_neg (by simp [hall]), Option.filter_none]

variable (hregular : ∀ v ∈ values, v.isRegular = true)

include hregular

theorem agreed?_eq_some {v : Value} (h : agreed? values = some v) :
    v ∈ values ∧ ∀ w ∈ values, v.same w = true := by
  refine ⟨mem_of_agreed? h, fun w hw => ?_⟩
  cases values with
  | nil => cases h
  | cons u rest =>
    obtain ⟨hall, heq⟩ := Option.ite_none_right_eq_some.1 h
    cases heq
    rcases List.mem_cons.1 hw with rfl | hw
    · exact Value.same_self _ (hregular _ List.mem_cons_self)
    · exact List.all_eq_true.1 hall w hw

/-- **Branches agree on a value if and only if there are some and all their values are equal.** -/
theorem agreed?_isSome_iff : (agreed? values).isSome = true ↔
    values ≠ [] ∧ ∀ v ∈ values, ∀ w ∈ values, v.same w = true := by
  constructor
  · intro h
    obtain ⟨u, hu⟩ := Option.isSome_iff_exists.1 h
    obtain ⟨hmem, hsame⟩ := agreed?_eq_some hregular hu
    -- Only the first value is compared with the others; two of these are equal through it.
    refine ⟨List.ne_nil_of_mem hmem, fun v hv w hw => ?_⟩
    have hvu : v.same u = true := u.same_symm v (hregular u hmem) (hregular v hv) (hsame v hv)
    exact v.same_trans u w (hregular v hv) (hregular u hmem) (hregular w hw) hvu (hsame w hw)
  · rintro ⟨hne, hsame⟩
    obtain ⟨v, rest, rfl⟩ := List.exists_cons_of_ne_nil hne
    have hall : (rest.all fun w => v.same w) = true := List.all_eq_true.2 fun w hw =>
      hsame v List.mem_cons_self w (List.mem_cons_of_mem _ hw)
    rw [agreed?, if_pos hall]
    rfl

end Catalogue

end Reconfig
