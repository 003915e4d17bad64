import Reconfig.Proofs.Dict
import Reconfig.Proofs.Regular
import Reconfig.Schema.Registry

/-!
# Missing fields

A section may complete any one of several sets of required fields. The answer on the fields that it
lacks names those of the set that is closest to completion, or there is none. With more fields
present the answer does not get longer.

* `absentFrom`, `IsShortest`: the fields of a set that are absent, and the first of the shortest
  lists;
* `shortest?_eq_some`: a running comparison finds it;
* `closestFrom`, **`Catalogue.missing?_eq_closestFrom`**: the same in one search that ends early;
* `Catalogue.missing?_eq_none`, `Catalogue.missing?_eq_some`: the answer, by the sets of the
  section;
* `Catalogue.missing?_of_isPart`: the answer with more fields present;
* **`missing_is_closest`**.
-/

namespace Reconfig

/-! ## Absent fields -/

/-- The fields of a set that are absent, in the order of the set. -/
def absentFrom (present : TextSet) (set : List String) : List String :=
  set.filter fun name => !present.contains name

/-- A set of texts is part of another one. -/
def TextSet.IsPart (present more : TextSet) : Prop :=
  ∀ name, present.contains name = true → more.contains name = true

theorem absentFrom_eq_nil {present : TextSet} {set : List String} :
    absentFrom present set = [] ↔ ∀ name ∈ set, present.contains name = true := by
  simp [absentFrom]

theorem absentFrom_sublist {present more : TextSet} (h : present.IsPart more) (set : List String) :
    (absentFrom more set).Sublist (absentFrom present set) := by
  refine List.monotone_filter_right set fun name habsent => ?_
  rw [Bool.not_eq_true', ← Bool.not_eq_true] at habsent ⊢
  exact mt (h name) habsent

/-! ## The shortest list -/

/-- **The first of the shortest lists**: all lists before it are longer, and none behind it is
shorter. -/
def IsShortest (lists : List (List String)) (m : List String) : Prop :=
  ∃ before after, lists = before ++ m :: after ∧ (∀ l ∈ before, m.length < l.length) ∧
    ∀ l ∈ after, m.length ≤ l.length

theorem isShortest_cons {l m : List String} {rest : List (List String)} :
    IsShortest (l :: rest) m ↔
      (l = m ∧ ∀ k ∈ rest, l.length ≤ k.length) ∨ (m.length < l.length ∧ IsShortest rest m) := by
  constructor
  · rintro ⟨before, after, heq, hbefore, hafter⟩
    cases before with
    | nil =>
      cases heq
      exact .inl ⟨rfl, hafter⟩
    | cons k before =>
      cases heq
      rw [List.forall_mem_cons] at hbefore
      exact .inr ⟨hbefore.1, before, after, rfl, hbefore.2, hafter⟩
  · rintro (⟨rfl, hrest⟩ | ⟨hlt, before, after, rfl, hbefore, hafter⟩)
    · exact ⟨[], rest, rfl, nofun, hrest⟩
    · exact ⟨l :: before, after, rfl, List.forall_mem_cons.2 ⟨hlt, hbefore⟩, hafter⟩

theorem IsShortest.mem {lists : List (List String)} {m : List String} (h : IsShortest lists m) :
    m ∈ lists := by
  obtain ⟨before, after, rfl, -⟩ := h
  simp

theorem IsShortest.length_le {lists : List (List String)} {m : List String}
    (h : IsShortest lists m) : ∀ l ∈ lists, m.length ≤ l.length := by
  obtain ⟨before, after, rfl, hbefore, hafter⟩ := h
  intro l hl
  rw [List.mem_append, List.mem_cons] at hl
  rcases hl with hl | rfl | hl
  · exact Nat.le_of_lt (hbefore l hl)
  · exact Nat.le_refl _
  · exact hafter l hl

theorem shortest?_eq_none {lists : List (List String)} : shortest? lists = none ↔ lists = [] := by
  cases lists with
  | nil => exact iff_of_true rfl rfl
  | cons l rest =>
    refine iff_of_false ?_ (List.cons_ne_nil l rest)
    rw [shortest?]
    split
    · split_ifs <;> simp
    · simp

/-- **A running comparison finds the first of the shortest lists.** -/
theorem shortest?_eq_some {lists : List (List String)} {m : List String} :
    shortest? lists = some m ↔ IsShortest lists m := by
  induction lists generalizing m with
  | nil =>
    refine iff_of_false nofun ?_
    rintro ⟨before, after, heq, -⟩
    simp at heq
  | cons l rest ih =>
    rw [shortest?, isShortest_cons, ← ih]
    cases hrest : shortest? rest with
    | none =>
      obtain rfl := shortest?_eq_none.1 hrest
      simp
    | some m' =>
      have hm' : IsShortest rest m' := ih.1 hrest
      dsimp only
      split_ifs with hlt <;> simp only [Option.some.injEq]
      · -- the list found behind `l` is shorter, so that `l` is not the shortest
        have hnot : ¬ ∀ k ∈ rest, l.length ≤ k.length := fun h =>
          absurd (h m' hm'.mem) (Nat.not_le.2 hlt)
        constructor
        · rintro rfl
          exact .inr ⟨hlt, rfl⟩
        · rintro (⟨-, h⟩ | ⟨-, rfl⟩)
          · exact absurd h hnot
          · rfl
      · have hall : ∀ k ∈ rest, l.length ≤ k.length := fun k hk =>
          Nat.le_trans (Nat.not_lt.1 hlt) (hm'.length_le k hk)
        constructor
        · rintro rfl
          exact .inl ⟨rfl, hall⟩
        · rintro (⟨rfl, -⟩ | ⟨h, rfl⟩)
          · rfl
          · exact absurd h hlt

/-! ## The search -/

/-- The search for the closest of several sets, behind the shortest list of absent fields that was
met before, if any was. It ends at the first set that is complete. -/
def closestFrom (present : TextSet) (best : Option (List String)) :
    List (List String) → Option (List String)
  | [] => best
  | set :: rest =>
    let absent := absentFrom present set
    if absent.isEmpty then none
    else if best.all fun b => absent.length < b.length then closestFrom present (some absent) rest
    else closestFrom present best rest

theorem shortest?_cons_of_lt {l m : List String} (h : m.length < l.length)
    (rest : List (List String)) : shortest? (l :: m :: rest) = shortest? (m :: rest) := by
  rw [shortest?]
  cases hrest : shortest? (m :: rest) with
  | none => exact absurd (shortest?_eq_none.1 hrest) (List.cons_ne_nil m rest)
  | some k =>
    have hk := (shortest?_eq_some.1 hrest).length_le m List.mem_cons_self
    exact if_pos (Nat.lt_of_le_of_lt hk h)

theorem shortest?_cons_of_le {l m : List String} (h : l.length ≤ m.length)
    (rest : List (List String)) : shortest? (l :: m :: rest) = shortest? (l :: rest) := by
  simp only [shortest?]
  cases hrest : shortest? rest with
  | none => exact if_neg (Nat.not_lt.2 h)
  | some k =>
    dsimp only
    by_cases hkm : k.length < m.length
    · rw [if_pos hkm]
    · have hkl : ¬ k.length < l.length := fun hlt => hkm (Nat.lt_of_lt_of_le hlt h)
      rw [if_neg hkm, if_neg hkl]
      exact if_neg (Nat.not_lt.2 h)

/-- **The search finds the first of the shortest lists**, unless a set is complete. -/
theorem closestFrom_eq (present : TextSet) (best : Option (List String))
    (sets : List (List String)) :
    closestFrom present best sets =
      if ∃ set ∈ sets, absentFrom present set = [] then none
      else shortest? (best.toList ++ sets.map (absentFrom present)) := by
  induction sets generalizing best with
  | nil => cases best <;> simp [closestFrom, shortest?]
  | cons set rest ih =>
    rw [closestFrom]
    by_cases hcomplete : absentFrom present set = []
    · rw [if_pos (List.isEmpty_iff.2 hcomplete), if_pos ⟨set, List.mem_cons_self, hcomplete⟩]
    · have hrest : (∃ s ∈ set :: rest, absentFrom present s = []) ↔
          ∃ s ∈ rest, absentFrom present s = [] := by simp [hcomplete]
      rw [if_neg (mt List.isEmpty_iff.1 hcomplete), ih, ih, if_congr hrest rfl rfl, List.map_cons]
      by_cases hbest : (best.all fun b => (absentFrom present set).length < b.length) = true
      · rw [if_pos hbest]
        refine if_congr Iff.rfl rfl ?_
        -- the list of this set takes the place of the one before, if there was one
        cases best with
        | none => rfl
        | some b => exact (shortest?_cons_of_lt (of_decide_eq_true hbest) _).symm
      · rw [if_neg hbest]
        refine if_congr Iff.rfl rfl ?_
        cases best with
        | none => exact absurd rfl hbest
        | some b => exact (shortest?_cons_of_le (by simpa using hbest) _).symm

/-! ## Answers -/

namespace Catalogue

/-- The sets of required fields of a section. -/
def setsOf (required : Dict (List (List String))) (context : String) : List (List String) :=
  (required.find? context).getD []

variable {c : Catalogue} {context : String} {present more : TextSet}

theorem missing?_eq (c : Catalogue) (context : String) (present : TextSet) :
    c.missing? context present =
      if ∃ set ∈ setsOf c.required context, absentFrom present set = [] then none
      else shortest? ((setsOf c.required context).map (absentFrom present)) := by
  have hany : ((setsOf c.required context).map (absentFrom present)).any List.isEmpty = true ↔
      ∃ set ∈ setsOf c.required context, absentFrom present set = [] := by
    simp
  rw [missing?]
  exact if_congr hany rfl rfl

/-- **The answer is found in one search** through the sets of the section. -/
theorem missing?_eq_closestFrom (c : Catalogue) (context : String) (present : TextSet) :
    c.missing? context present = closestFrom present none (setsOf c.required context) := by
  rw [missing?_eq, closestFrom_eq, Option.toList_none, List.nil_append]

/-- **There is no answer** if there is no set, or one is complete. -/
theorem missing?_eq_none : c.missing? context present = none ↔
    setsOf c.required context = [] ∨
      ∃ set ∈ setsOf c.required context, ∀ name ∈ set, present.contains name = true := by
  simp only [← absentFrom_eq_nil]
  rw [missing?_eq]
  split_ifs with hcomplete
  · exact iff_of_true rfl (.inr hcomplete)
  · rw [shortest?_eq_none, List.map_eq_nil_iff, or_iff_left hcomplete]

/-- **The answer** names the absent fields of the first set that lacks the fewest. -/
theorem missing?_eq_some {names : List String} : c.missing? context present = some names ↔
    (∀ set ∈ setsOf c.required context, ¬ ∀ name ∈ set, present.contains name = true) ∧
      IsShortest ((setsOf c.required context).map (absentFrom present)) names := by
  simp only [← absentFrom_eq_nil, ← shortest?_eq_some]
  rw [missing?_eq]
  split_ifs with hcomplete
  · refine iff_of_false nofun fun h => ?_
    obtain ⟨set, hset, hnil⟩ := hcomplete
    exact h.1 set hset hnil
  · exact (and_iff_right fun set hset hnil => hcomplete ⟨set, hset, hnil⟩).symm

/-- **With more fields present** there is an answer only if there was one, and it is no longer. -/
theorem missing?_of_isPart (h : present.IsPart more) {names : List String}
    (hmore : c.missing? context more = some names) :
    ∃ names', c.missing? context present = some names' ∧ names.length ≤ names'.length := by
  obtain ⟨hincomplete, hshortest⟩ := missing?_eq_some.1 hmore
  cases hpresent : c.missing? context present with
  | none =>
    rcases missing?_eq_none.1 hpresent with hnil | ⟨set, hset, hcomplete⟩
    · rw [hnil] at hshortest
      exact nomatch hshortest.mem
    · exact absurd (fun name hname => h name (hcomplete name hname)) (hincomplete set hset)
  | some names' =>
    -- the set that was closest before is at least as close now
    obtain ⟨set, hset, rfl⟩ := List.mem_map.1 (missing?_eq_some.1 hpresent).2.mem
    refine ⟨_, rfl, ?_⟩
    calc names.length ≤ (absentFrom more set).length :=
          hshortest.length_le _ (List.mem_map_of_mem hset)
      _ ≤ (absentFrom present set).length := (absentFrom_sublist h set).length_le

theorem isShortest_map_absentFrom {sets : List (List String)} {names : List String} :
    IsShortest (sets.map (absentFrom present)) names ↔
      ∃ before set after, sets = before ++ set :: after ∧ names = absentFrom present set ∧
        (∀ s ∈ before, names.length < (absentFrom present s).length) ∧
          ∀ s ∈ after, names.length ≤ (absentFrom present s).length := by
  constructor
  · rintro ⟨_, _, heq, hbefore, hafter⟩
    obtain ⟨before, _, rfl, rfl, htail⟩ := List.map_eq_append_iff.1 heq
    obtain ⟨set, after, rfl, rfl, rfl⟩ := List.map_eq_cons_iff.1 htail
    rw [List.forall_mem_map] at hbefore hafter
    exact ⟨before, set, after, rfl, rfl, hbefore, hafter⟩
  · rintro ⟨before, set, after, rfl, rfl, hbefore, hafter⟩
    exact ⟨before.map (absentFrom present), after.map (absentFrom present), by simp,
      List.forall_mem_map.2 hbefore, List.forall_mem_map.2 hafter⟩

end Catalogue

open Catalogue (setsOf)

/-- **The answer on missing fields names the closest set, and gets no longer.** For a build with a
schema there is an answer on every section. No field is missing if and only if the section has no
sets of required fields or one of them is present; otherwise the missing fields are the absent ones
of the set that lacks the fewest, in its order, and of the first such set. With more fields present,
none are missing where none were, and no more where some were. -/
theorem missing_is_closest {r : Registry} {build : String} {required : Dict (List (List String))}
    (h : r.required build = .ok required) (context : String) (present : TextSet) :
    (∃ names?, r.missing? build context present = .ok names?) ∧
    (r.missing? build context present = .ok none ↔ setsOf required context = [] ∨
      ∃ set ∈ setsOf required context, ∀ name ∈ set, present.contains name = true) ∧
    (∀ names, r.missing? build context present = .ok (some names) ↔
      (∀ set ∈ setsOf required context, ¬ ∀ name ∈ set, present.contains name = true) ∧
        ∃ before set after, setsOf required context = before ++ set :: after ∧
          names = absentFrom present set ∧
          (∀ s ∈ before, names.length < (absentFrom present s).length) ∧
          ∀ s ∈ after, names.length ≤ (absentFrom present s).length) ∧
    ∀ more : TextSet, present.IsPart more →
      (r.missing? build context present = .ok none → r.missing? build context more = .ok none) ∧
      ∀ names, r.missing? build context more = .ok (some names) →
        ∃ names', r.missing? build context present = .ok (some names') ∧
          names.length ≤ names'.length := by
  obtain ⟨c, hc, rfl⟩ := exists_of_map_eq_ok h
  have hmissing : ∀ p, r.missing? build context p = .ok (c.missing? context p) := fun p => by
    rw [Registry.missing?, hc]
    rfl
  simp only [hmissing, Except.ok.injEq]
  refine ⟨⟨_, rfl⟩, Catalogue.missing?_eq_none, fun names => ?_, fun more hmore => ⟨fun hnone => ?_,
    fun names => Catalogue.missing?_of_isPart hmore⟩⟩
  · rw [Catalogue.missing?_eq_some, Catalogue.isShortest_map_absentFrom]
  · refine Option.eq_none_iff_forall_ne_some.2 fun names hnames => ?_
    obtain ⟨names', hsome, -⟩ := Catalogue.missing?_of_isPart hmore hnames
    exact nomatch hnone.symm.trans hsome

/-- A schema with three alternatives, the second and the third of which are equally long. -/
def alternatives : Json :=
  .object [("oneOf", .array [
    .object [("required", .array [.string "address", .string "port", .string "address"])],
    .object [("required", .array [.string "tls", .string "port"])],
    .object [("required", .array [.string "tls-name", .string "port"])]])]

/-- With nothing present the second alternative is the closest one, and one field less is missing
from the first one once the address is present. -/
theorem missing_is_closest_of_alternatives :
    ∃ r required, Registry.ofDocuments [("7.0.0.5-1", alternatives)] = .ok r ∧
      r.required "7.0.0" = .ok required ∧
      r.missing? "7.0.0" "" (.ofTexts []) = .ok (some ["tls", "port"]) ∧
      TextSet.IsPart (.ofTexts []) (.ofTexts ["address"]) ∧
      r.missing? "7.0.0" "" (.ofTexts ["address"]) = .ok (some ["port"]) := by
  obtain ⟨r, hr⟩ : ∃ r, Registry.ofDocuments [("7.0.0.5-1", alternatives)] = .ok r := ⟨_, rfl⟩
  obtain ⟨required, hrequired⟩ : ∃ required, r.required "7.0.0" = .ok required := by
    cases hr
    exact ⟨_, rfl⟩
  have hsets : setsOf required "" = [["address", "port", "address"], ["tls", "port"],
      ["tls-name", "port"]] := by
    cases hr
    cases hrequired
    decide
  obtain ⟨-, -, hsome, -⟩ := missing_is_closest hrequired "" (.ofTexts [])
  obtain ⟨-, -, hsome', -⟩ := missing_is_closest hrequired "" (.ofTexts ["address"])
  rw [hsets] at hsome hsome'
  refine ⟨r, required, hr, hrequired, (hsome _).2 ⟨by decide, [["address", "port", "address"]],
    ["tls", "port"], [["tls-name", "port"]], rfl, rfl, by decide, by decide⟩, nofun,
    (hsome' _).2 ⟨by decide, [], ["address", "port", "address"], [["tls", "port"],
      ["tls-name", "port"]], rfl, rfl, by decide, by decide⟩⟩

end Reconfig
