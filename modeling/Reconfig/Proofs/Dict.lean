import Mathlib.Data.List.Basic
import Mathlib.Data.List.Induction
import Reconfig.Dict

/-!
# Look-ups in dictionaries

What a dictionary holds, seen from its look-ups alone.

* `forall_of_check`, `check_iff_forall`, `distinct_of_check`: a check made of each element in turn;
* `Dict.mem_of_lookup`, `Dict.lookup_of_mem`: look-ups in a list of entries;
* **`Dict.mem_entries`**: the entries of a dictionary are its look-ups;
* `find?_ofList_of_unique`, `find?_ofList_of_mem`, `find?_ofList_eq_none`: the dictionary of a list
  whose keys have one value, or are distinct, or miss one;
* `entries_ofList`, `find?_ofList_append`: of ordered entries, and of two lists the later one
  counts;
* `find?_insertNew`, `lookup_of_perm`: a value that is there already, entries in another order;
* `find?_filter`, `find?_erase`: entries that satisfy a test, or have another key;
* `find?_filterMap_eq_some`, `mem_of_mem_gather`: images of entries, and values gathered by key;
* `TextSet.contains_ofTexts`: membership in a set of texts.
-/

namespace Reconfig

/-! ## Checks made of a list -/

theorem forall_of_check {α : Type} {p : α → Prop} {check : List α → Bool}
    (hcheck : ∀ x rest, check (x :: rest) = true → p x ∧ check rest = true) {l : List α}
    (h : check l = true) : ∀ x ∈ l, p x := by
  induction l with
  | nil => exact List.forall_mem_nil p
  | cons x rest ih =>
    obtain ⟨hx, hrest⟩ := hcheck x rest h
    exact List.forall_mem_cons.2 ⟨hx, ih hrest⟩

/-- A check that asks nothing else says just that. -/
theorem check_iff_forall {α : Type} {p : α → Prop} {check : List α → Bool}
    (hnil : check [] = true)
    (hcons : ∀ x rest, check (x :: rest) = true ↔ p x ∧ check rest = true) {l : List α} :
    check l = true ↔ ∀ x ∈ l, p x := by
  refine ⟨forall_of_check fun x rest => (hcons x rest).1, fun h => ?_⟩
  induction l with
  | nil => exact hnil
  | cons x rest ih =>
    rw [List.forall_mem_cons] at h
    exact (hcons x rest).2 ⟨h.1, ih h.2⟩

theorem distinct_of_check {α : Type} {check : List (String × α) → Bool}
    (hcheck : ∀ e rest, check (e :: rest) = true → rest.lookup e.1 = none ∧ check rest = true)
    {l : List (String × α)} (h : check l = true) : l.Pairwise (fun a b => a.1 ≠ b.1) := by
  induction l with
  | nil => exact .nil
  | cons e rest ih =>
    obtain ⟨hnew, hrest⟩ := hcheck e rest h
    refine List.pairwise_cons.2 ⟨fun f hf => ?_, ih hrest⟩
    exact bne_iff_ne.1 (List.lookup_eq_none_iff.1 hnew f hf)

namespace Dict

/-! ## Lists of entries -/

section Entries

variable {κ α : Type} [BEq κ] [LawfulBEq κ] {key : κ} {value : α} {l : List (κ × α)}

theorem mem_of_lookup (h : l.lookup key = some value) : (key, value) ∈ l := by
  obtain ⟨before, after, rfl, -⟩ := List.lookup_eq_some_iff.1 h
  exact List.mem_append_right _ List.mem_cons_self

theorem lookup_of_mem (hl : l.Pairwise (fun a b => a.1 ≠ b.1)) (h : (key, value) ∈ l) :
    l.lookup key = some value := by
  induction l with
  | nil => cases h
  | cons e rest ih =>
    obtain ⟨k, v⟩ := e
    rw [List.pairwise_cons] at hl
    rcases List.mem_cons.1 h with heq | h
    · cases heq
      simp
    · have hne : k ≠ key := hl.1 (key, value) h
      have hb : (key == k) = false := by simpa using hne.symm
      rw [List.lookup_cons, hb]
      exact ih hl.2 h

end Entries

variable {α : Type}

theorem lookup_eq_none_of_not_mem {key : String} {l : List (String × α)}
    (h : ∀ e ∈ l, e.1 ≠ key) : l.lookup key = none := by
  rw [List.lookup_eq_none_iff]
  intro e he
  simpa using (h e he).symm

theorem entries_distinct (d : Dict α) : d.entries.Pairwise (fun a b => a.1 ≠ b.1) := by
  refine d.ordered.imp ?_
  intro a b hlt heq
  rw [heq] at hlt
  exact String.lt_irrefl _ hlt

/-- **The entries of a dictionary are its look-ups.** -/
theorem mem_entries {d : Dict α} {key : String} {value : α} :
    (key, value) ∈ d.entries ↔ d.find? key = some value :=
  ⟨lookup_of_mem d.entries_distinct, mem_of_lookup⟩

theorem contains_eq_true {d : Dict α} {key : String} :
    d.contains key = true ↔ ∃ value, d.find? key = some value := Option.isSome_iff_exists

theorem contains_eq_false {d : Dict α} {key : String} :
    d.contains key = false ↔ d.find? key = none := by
  rw [contains, Option.isSome_eq_false_iff, Option.isNone_iff_eq_none]

theorem mem_keys {d : Dict α} {key : String} : key ∈ d.keys ↔ d.contains key = true := by
  rw [keys, List.mem_map, contains_eq_true]
  constructor
  · rintro ⟨⟨k, v⟩, he, rfl⟩
    exact ⟨v, mem_entries.1 he⟩
  · rintro ⟨v, hv⟩
    exact ⟨(key, v), mem_entries.2 hv, rfl⟩

theorem isEmpty_eq_true {d : Dict α} : d.isEmpty = true ↔ ∀ key, d.find? key = none := by
  rw [isEmpty, List.isEmpty_iff, List.eq_nil_iff_forall_not_mem]
  constructor
  · intro h key
    exact Option.eq_none_iff_forall_ne_some.2 fun value hv => h _ (mem_entries.2 hv)
  · rintro h ⟨key, value⟩ hmem
    exact nomatch (h key).symm.trans (mem_entries.1 hmem)

@[simp]
theorem find?_empty (key : String) : (empty : Dict α).find? key = none := rfl

theorem find?_insertNew (d : Dict α) (key other : String) (value : α) :
    (d.insertNew key value).find? other =
      if other = key then (d.find? other).or (some value) else d.find? other := by
  rw [insertNew]
  split_ifs with hcontains hkey hkey
  · subst hkey
    obtain ⟨v, hv⟩ := contains_eq_true.1 hcontains
    rw [hv, Option.some_or]
  · rfl
  · subst hkey
    rw [Bool.not_eq_true, contains_eq_false] at hcontains
    rw [find?_insert, if_pos rfl, hcontains, Option.none_or]
  · rw [find?_insert, if_neg hkey]

theorem lookup_of_perm {d : Dict α} {l : List (String × α)} (h : l.Perm d.entries) (key : String) :
    l.lookup key = d.find? key := by
  have hl : l.Pairwise (fun a b => a.1 ≠ b.1) :=
    h.symm.pairwise d.entries_distinct fun hne => hne.symm
  rw [Option.ext_iff]
  intro value
  rw [← mem_entries, ← h.mem_iff]
  exact ⟨mem_of_lookup, lookup_of_mem hl⟩

theorem entries_nodup (d : Dict α) : d.entries.Nodup :=
  d.entries_distinct.imp fun hne heq => hne (congrArg Prod.fst heq)

theorem find?_filter (d : Dict α) (p : String → α → Bool) (key : String) :
    (d.filter p).find? key = (d.find? key).filter (p key) := by
  refine Option.ext fun value => ?_
  rw [← mem_entries, filter, List.mem_filter, mem_entries, Option.filter_eq_some_iff]

theorem find?_erase (d : Dict α) (key other : String) :
    (d.erase key).find? other = if other = key then none else d.find? other := by
  rw [erase, find?_filter]
  split_ifs with h
  · subst h
    cases d.find? other <;> simp
  · cases d.find? other <;> simp [h]

/-! ## Dictionaries of lists -/

theorem find?_foldl_insert (l : List (String × α)) (d : Dict α) (key : String) :
    (l.foldl (fun d e => d.insert e.1 e.2) d).find? key =
      (l.reverse.lookup key).or (d.find? key) := by
  induction l generalizing d with
  | nil => rfl
  | cons e rest ih =>
    rw [List.foldl_cons, ih, find?_insert, List.reverse_cons, List.lookup_append, Option.or_assoc]
    congr 1
    by_cases h : key = e.1
    · rw [if_pos h, List.lookup_cons, beq_iff_eq.2 h]
      rfl
    · rw [if_neg h, List.lookup_cons, beq_eq_false_iff_ne.2 h]
      rfl

theorem find?_ofList (l : List (String × α)) (key : String) :
    (ofList l).find? key = l.reverse.lookup key := by
  rw [ofList, find?_foldl_insert, find?_empty, Option.or_none]

/-- **Of two lists the later one counts.** -/
theorem find?_ofList_append (l m : List (String × α)) (key : String) :
    (ofList (l ++ m)).find? key = ((ofList m).find? key).or ((ofList l).find? key) := by
  rw [find?_ofList, find?_ofList, find?_ofList, List.reverse_append, List.lookup_append]

theorem find?_ofList_eq_none {l : List (String × α)} {key : String} (h : ∀ e ∈ l, e.1 ≠ key) :
    (ofList l).find? key = none := by
  rw [find?_ofList]
  exact lookup_eq_none_of_not_mem fun e he => h e (List.mem_reverse.1 he)

theorem mem_of_find?_ofList {l : List (String × α)} {key : String} {value : α}
    (h : (ofList l).find? key = some value) : (key, value) ∈ l := by
  rw [find?_ofList] at h
  exact List.mem_reverse.1 (mem_of_lookup h)

theorem find?_ofList_of_unique {l : List (String × α)} {key : String} {value : α}
    (h : (key, value) ∈ l) (hunique : ∀ v, (key, v) ∈ l → v = value) :
    (ofList l).find? key = some value := by
  cases hf : (ofList l).find? key with
  | some v => rw [hunique v (mem_of_find?_ofList hf)]
  | none =>
    rw [find?_ofList, List.lookup_eq_none_iff] at hf
    have hne := hf (key, value) (List.mem_reverse.2 h)
    rw [bne_self_eq_false] at hne
    cases hne

theorem entries_ofList {l : List (String × α)} (h : l.Pairwise (fun a b => a.1 < b.1)) :
    (ofList l).entries = l := by
  let d : Dict α := ⟨l, h⟩
  have heq : ofList l = d := ext_find? fun key => by
    rw [find?_ofList, lookup_of_perm (d := d) (List.reverse_perm l)]
  rw [heq]

/-- **Where keys are distinct, the dictionary of a list holds every entry of it.** -/
theorem find?_ofList_of_mem {l : List (String × α)} (hl : l.Pairwise (fun a b => a.1 ≠ b.1))
    {key : String} {value : α} (h : (key, value) ∈ l) : (ofList l).find? key = some value := by
  rw [find?_ofList]
  exact lookup_of_mem (List.pairwise_reverse.2 (hl.imp Ne.symm)) (List.mem_reverse.2 h)

theorem find?_ofList_filterMap {β : Type} (d : Dict α) (f : String → α → Option β)
    (key : String) :
    (ofList (d.entries.filterMap fun e => (f e.1 e.2).map fun v => (e.1, v))).find? key =
      (d.find? key).bind (f key) := by
  cases hk : (d.find? key).bind (f key) with
  | none =>
    refine find?_ofList_eq_none fun e he => ?_
    rintro rfl
    obtain ⟨⟨k, a⟩, ha, hv⟩ := List.mem_filterMap.1 he
    obtain ⟨v, hf, rfl⟩ := Option.map_eq_some_iff.1 hv
    rw [mem_entries.1 ha, Option.bind_some] at hk
    exact Option.some_ne_none v (hf.symm.trans hk)
  | some v =>
    obtain ⟨a, ha, hv⟩ := Option.bind_eq_some_iff.1 hk
    refine find?_ofList_of_mem (d.entries_distinct.filterMap _ ?_)
      (List.mem_filterMap.2 ⟨(key, a), mem_entries.2 ha, by rw [hv]; rfl⟩)
    intro e e' hne b hb b' hb'
    obtain ⟨v, -, rfl⟩ := Option.map_eq_some_iff.1 hb
    obtain ⟨v', -, rfl⟩ := Option.map_eq_some_iff.1 hb'
    exact hne

theorem find?_ofList_keys {keys : List String} {f : String → Option α} {key : String}
    (h : ∀ value, f key = some value → key ∈ keys) :
    (ofList (keys.filterMap fun k => (f k).map fun v => (k, v))).find? key = f key := by
  rw [find?_ofList]
  cases hf : f key with
  | none =>
    refine lookup_eq_none_of_not_mem fun e he => ?_
    rintro rfl
    obtain ⟨k, -, hv⟩ := List.mem_filterMap.1 (List.mem_reverse.1 he)
    obtain ⟨v, hk, rfl⟩ := Option.map_eq_some_iff.1 hv
    exact nomatch hf.symm.trans hk
  | some value =>
    have hmem : (key, value) ∈ keys.filterMap fun k => (f k).map fun v => (k, v) :=
      List.mem_filterMap.2 ⟨key, h value hf, by rw [hf]; rfl⟩
    cases hl : (keys.filterMap fun k => (f k).map fun v => (k, v)).reverse.lookup key with
    | none =>
      have hne := List.lookup_eq_none_iff.1 hl _ (List.mem_reverse.2 hmem)
      simp at hne
    | some v =>
      -- every entry at the key holds the one value of the key
      obtain ⟨k, -, hv⟩ := List.mem_filterMap.1 (List.mem_reverse.1 (mem_of_lookup hl))
      obtain ⟨w, hk, heq⟩ := Option.map_eq_some_iff.1 hv
      cases heq
      exact hk.symm.trans hf

theorem find?_filterMap_eq_some {β : Type} {d : Dict α} {f : String → α → Option β} {key : String}
    {value : β} : (d.filterMap f).find? key = some value ↔
      ∃ a, d.find? key = some a ∧ f key a = some value := by
  rw [← mem_entries, filterMap, List.mem_filterMap]
  constructor
  · rintro ⟨⟨k, a⟩, ha, h⟩
    obtain ⟨v, hv, heq⟩ := Option.map_eq_some_iff.1 h
    cases heq
    exact ⟨a, mem_entries.1 ha, hv⟩
  · rintro ⟨a, ha, hv⟩
    exact ⟨(key, a), mem_entries.2 ha, by rw [hv]; rfl⟩

theorem mem_of_mem_gather {l : List (String × α)} {key : String} {values : List α} {value : α}
    (h : (gather l).find? key = some values) (hv : value ∈ values) : (key, value) ∈ l := by
  induction l using List.reverseRecOn generalizing values with
  | nil => cases h
  | append_singleton rest e ih =>
    rw [gather, List.foldl_append, List.foldl_cons, List.foldl_nil, push, find?_insert] at h
    split_ifs at h with hkey
    · cases h
      rw [List.mem_append, List.mem_singleton] at hv
      rcases hv with hv | rfl
      · cases hrest : (gather rest).find? e.1 with
        | none =>
          rw [← gather, hrest] at hv
          cases hv
        | some before =>
          rw [← gather, hrest] at hv
          exact List.mem_append_left _ (ih (hkey ▸ hrest) hv)
      · rw [hkey]
        exact List.mem_append_right _ (List.mem_singleton.2 rfl)
    · exact List.mem_append_left _ (ih h hv)

end Dict

theorem TextSet.contains_ofTexts {l : List String} {t : String} :
    (TextSet.ofTexts l).contains t = true ↔ t ∈ l := by
  rw [Dict.contains_eq_true]
  constructor
  · rintro ⟨u, hu⟩
    obtain ⟨t', ht', heq⟩ := List.mem_map.1 (Dict.mem_of_find?_ofList hu)
    cases heq
    exact ht'
  · intro h
    exact ⟨(), Dict.find?_ofList_of_unique (List.mem_map.2 ⟨t, h, rfl⟩) fun _ _ => rfl⟩

end Reconfig
