import Reconfig.Proofs.WellFormed

/-!
# The segments below a path

The places of a trie stand in the order in which insertions came to them first. Below a path of a
flat configuration there are thus the segments by which its keys go on, each once, in the order of
the first keys that go on with them.

* `Path.next?`: the segment by which a path goes on after another one;
* `Trie.map_fst_alter`, `Trie.place_insert`: what one insertion does to the places below;
* `FlatConfig.steps`, **`map_fst_children_place`**: the segments below a path.
-/

namespace Reconfig

open Reconfig.Path (parse)

/-! ## One step further -/

namespace Path

/-- The segment by which a path goes on after another one that begins it. -/
def next? (p q : Path) : Option Segment := (q.relativeTo? p).bind List.head?

theorem next?_nil (q : Path) : next? [] q = q.head? := by simp [next?, relativeTo?]

theorem next?_cons_nil (s : Segment) (p : Path) : next? (s :: p) [] = none := rfl

theorem next?_cons_cons (s t : Segment) (p q : Path) :
    next? (s :: p) (t :: q) = if s = t then next? p q else none := by
  by_cases hs : s = t <;> simp [next?, relativeTo?, hs]

theorem next?_eq_some {p q : Path} {s : Segment} : next? p q = some s ↔ p ++ [s] <+: q := by
  induction p generalizing q with
  | nil => cases q <;> simp [next?_nil, eq_comm]
  | cons u p ih =>
    cases q with
    | nil => simp [next?_cons_nil]
    | cons t q => by_cases hu : u = t <;> simp [next?_cons_cons, hu, ih]

end Path

namespace Trie

theorem removeAll_singleton (s : Segment) (l : List Segment) :
    [s].removeAll l = if s ∈ l then [] else [s] := by
  by_cases hs : s ∈ l <;> simp [List.cons_removeAll, hs]

theorem map_fst_alter (s : Segment) (f : Trie → Trie) (l : List (Segment × Trie)) :
    (alter s f l).map Prod.fst = l.map Prod.fst ++ [s].removeAll (l.map Prod.fst) := by
  induction l with
  | nil => rfl
  | cons e rest ih =>
    obtain ⟨u, n⟩ := e
    by_cases hu : u = s
    · simp [alter, removeAll_singleton, hu]
    · have hmem : s ∈ u :: rest.map Prod.fst ↔ s ∈ rest.map Prod.fst :=
        List.mem_cons.trans (or_iff_right (Ne.symm hu))
      rw [alter, if_neg hu, List.map_cons, List.map_cons, ih, List.cons_append,
        removeAll_singleton, removeAll_singleton, if_congr hmem rfl rfl]

theorem place_insert_nil (t : Trie) (v : Value) (s : Segment) :
    (t.insert [] v).place s = t.place s := by
  cases t
  rfl

theorem place_insert_cons (t : Trie) (s u : Segment) (q : Path) (v : Value) :
    (t.insert (s :: q) v).place u = if u = s then (t.place s).insert q v else t.place u := by
  cases t
  rw [insert, place, Trie.children, lookup_alter]
  split_ifs <;> rfl

theorem map_fst_children_insert (t : Trie) (p q : Path) (v : Value) :
    (p.foldl place (t.insert q v)).children.map Prod.fst =
      (p.foldl place t).children.map Prod.fst ++
        (p.next? q).toList.removeAll ((p.foldl place t).children.map Prod.fst) := by
  induction p generalizing t q with
  | nil =>
    cases t
    cases q with
    | nil => exact (List.append_nil _).symm
    | cons s q => exact map_fst_alter s _ _
  | cons u p ih =>
    cases q with
    | nil =>
      rw [List.foldl_cons, place_insert_nil]
      exact (List.append_nil _).symm
    | cons s q =>
      rw [List.foldl_cons, List.foldl_cons, place_insert_cons, Path.next?_cons_cons]
      split_ifs with hu
      · rw [hu]
        exact ih _ _
      · exact (List.append_nil _).symm

theorem foldl_place_empty (p : Path) : p.foldl place empty = empty := by
  induction p with
  | nil => rfl
  | cons s p ih => exact ih

/-- **The places below a path come in the order of the first entries below them.** -/
theorem map_fst_children_ofEntries (entries : List (String × Value)) (p : Path) :
    (p.foldl place (ofEntries entries)).children.map Prod.fst =
      (entries.filterMap fun e => p.next? (parse e.1)).eraseDups := by
  induction entries using List.reverseRecOn with
  | nil =>
    rw [ofEntries, List.foldl_nil, foldl_place_empty]
    rfl
  | append_singleton rest e ih =>
    have hinsert : ofEntries (rest ++ [e]) = (ofEntries rest).insert (parse e.1) e.2 := by
      rw [ofEntries, List.foldl_append]
      rfl
    rw [hinsert, map_fst_children_insert, ih, List.filterMap_append, List.eraseDups_append]
    cases hs : p.next? (parse e.1) with
    | none => simp [hs]
    | some s => by_cases hmem : s ∈ rest.filterMap fun e => p.next? (parse e.1) <;>
        simp [removeAll_singleton, List.eraseDups_cons, hs, hmem]

end Trie

namespace FlatConfig

/-- The segments right below a path, each once, in the order of the first keys that have them. -/
def steps (f : FlatConfig) (p : Path) : List Segment := (f.paths.filterMap p.next?).eraseDups

variable {f : FlatConfig} {p : Path}

/-- **The places below a path stand in the order of their first keys.** -/
theorem map_fst_children_place : (f.place p).children.map Prod.fst = f.steps p := by
  rw [place, Trie.map_fst_children_ofEntries, steps, paths, Dict.keys, List.map_map,
    List.filterMap_map]
  rfl

theorem mem_steps {s : Segment} : s ∈ f.steps p ↔ f.Reaches (p ++ [s]) := by
  rw [steps, List.mem_eraseDups, List.mem_filterMap]
  exact exists_congr fun q => and_congr_right fun _ => Path.next?_eq_some

theorem steps_eq_nil : f.steps p = [] ↔ ∀ s, ¬ f.Reaches (p ++ [s]) := by
  rw [List.eq_nil_iff_forall_not_mem]
  exact forall_congr' fun s => not_congr mem_steps

theorem steps_nodup : (f.steps p).Nodup := by
  rw [← map_fst_children_place]
  exact List.pairwise_map.2 (place_holds p).tidy.distinct

end FlatConfig

end Reconfig
