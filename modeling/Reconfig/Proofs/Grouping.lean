import Mathlib.Data.List.Chain
import Mathlib.Data.List.Pairwise
import Reconfig.Proofs.Places

/-!
# Lists that are regrouped from keys

Whatever the keys of a flat configuration are, its tree shows no marker of a position, and where
the keys go on with selectors alone there is a list of the instances, each with an identity, in the
order of their markers.

* `Precedes`, **`order_precedes`**, `order_eq_of_precedes`: the order of instances is decided by
  markers, then by keys;
* `HidesMarkers`, **`hidesMarkers_place`**: no section shows a marker, unless a value is kept whole;
* `expandedAt?`, **`expandedAt?_eq`**: what stands in the tree at a path of the keys;
* `IsList`, `IsElement`, **`expand_regroups`**: the tree of any flat configuration.
-/

namespace Reconfig

open Vocabulary (nameField typeField indexField)

/-! ## Stable sorting -/

section Stable

variable {α : Type} {l : List α} {a b : α}

theorem idxOf_lt_of_sublist [DecidableEq α] (hl : l.Nodup) (h : [a, b].Sublist l) :
    l.idxOf a < l.idxOf b := by
  have hpairs : l.Pairwise fun a b => l.idxOf a < l.idxOf b := by
    rw [List.pairwise_iff_getElem]
    intro i j hi hj hij
    rwa [hl.idxOf_getElem, hl.idxOf_getElem]
  exact List.pairwise_iff_forall_sublist.1 hpairs h

theorem sublist_or_sublist_of_mem (ha : a ∈ l) (hb : b ∈ l) (hne : a ≠ b) :
    [a, b].Sublist l ∨ [b, a].Sublist l := by
  have hsymm : Std.Symm fun a b => [a, b].Sublist l ∨ [b, a].Sublist l := ⟨fun _ _ => Or.symm⟩
  have hpairs : l.Pairwise fun a b => [a, b].Sublist l ∨ [b, a].Sublist l :=
    List.pairwise_iff_forall_sublist.2 fun h => .inl h
  exact hpairs.forall ha hb hne

/-- **Sorting is stable**: elements that the order does not put apart stay as they are. -/
theorem pairwise_mergeSort_stable {le : α → α → Bool}
    (trans : ∀ a b c, le a b = true → le b c = true → le a c = true)
    (total : ∀ a b, (le a b || le b a) = true) (hl : l.Nodup) :
    (l.mergeSort le).Pairwise fun a b =>
      le a b = true ∧ (le b a = true → [a, b].Sublist l) := by
  classical
  rw [List.pairwise_iff_forall_sublist]
  intro a b hab
  have hnodup : (l.mergeSort le).Nodup := (List.mergeSort_perm l le).nodup_iff.2 hl
  have hmem : ∀ x ∈ [a, b], x ∈ l := fun x hx => List.mem_mergeSort.1 (hab.subset hx)
  have hne : a ≠ b := by simpa using hab.nodup hnodup
  refine ⟨List.pairwise_iff_forall_sublist.1 (List.pairwise_mergeSort trans total l) hab,
    fun hba => ?_⟩
  rcases sublist_or_sublist_of_mem (hmem a (by simp)) (hmem b (by simp)) hne with h | h
  · exact h
  · -- the sort would have kept this order
    have hsorted := List.pair_sublist_mergeSort trans total hba h
    exact absurd (idxOf_lt_of_sublist hnodup hab) (idxOf_lt_of_sublist hnodup hsorted).asymm

end Stable

theorem Tree.mem_insert {t : Tree} {name : String} {v : Value} {e : String × Value}
    (h : e ∈ t.insert name v) : e = (name, v) ∨ e ∈ t := by
  induction t with
  | nil => exact .inl (List.mem_singleton.1 h)
  | cons g rest ih =>
    obtain ⟨k, w⟩ := g
    rw [insert] at h
    split_ifs at h
    · exact (List.mem_cons.1 h).imp_right (List.mem_cons_of_mem _)
    · rcases List.mem_cons.1 h with rfl | h
      · exact .inr List.mem_cons_self
      · exact (ih h).imp_right (List.mem_cons_of_mem _)

namespace FlatConfig

variable {f : FlatConfig} {p : Path}

/-! ## The order of instances -/

/-- The keys come to the first of two instances first. -/
def KeyedBefore (f : FlatConfig) (p : Path) (a b : String) : Prop :=
  (f.steps p).idxOf (.selector a) < (f.steps p).idxOf (.selector b)

/-- The first of two instances comes before the second: that of the smaller position, or the one
that has a position. Where positions do not decide, the keys do. -/
def Precedes (f : FlatConfig) (p : Path) (a b : String) : Prop :=
  match f.position? (p.select a), f.position? (p.select b) with
  | some i, some j => i < j ∨ (i = j ∧ f.KeyedBefore p a b)
  | some _, none => True
  | none, some _ => False
  | none, none => f.KeyedBefore p a b

theorem index?_place : (f.place p).index? = f.position? p := by
  rw [Trie.index?_eq, find?_place]
  rfl

/-- **The instances of a list are in the order of their markers**, then in that of their keys. -/
theorem order_precedes : (f.order p).Pairwise (f.Precedes p) := by
  have hnodup : (f.place p).children.Nodup :=
    (place_holds p).tidy.distinct.imp fun hne heq => hne (congrArg _ heq)
  have hpairs := pairwise_mergeSort_stable Trie.before_trans Trie.before_total hnodup
  refine (pairwise_order hpairs).imp fun {a b} ⟨hle, hstable⟩ => ?_
  have hkeys : Trie.before (.selector b, f.place (p.select b))
      (.selector a, f.place (p.select a)) = true → f.KeyedBefore p a b := fun hba =>
    idxOf_lt_of_sublist steps_nodup (map_fst_children_place ▸ (hstable hba).map Prod.fst)
  simp only [Trie.before, inPlace, index?_place] at hkeys hle
  unfold Precedes
  cases hi : f.position? (p.select a) <;> cases hj : f.position? (p.select b) <;>
    simp only [hi, hj, decide_eq_true_eq, Bool.false_eq_true] at hkeys hle ⊢
  · exact hkeys trivial
  · rcases Nat.lt_or_eq_of_le hle with hlt | heq
    · exact .inl hlt
    · exact .inr ⟨heq, hkeys (Nat.le_of_eq heq.symm)⟩

theorem Precedes.asymm {a b : String} (h : f.Precedes p a b) : ¬ f.Precedes p b a := by
  unfold Precedes KeyedBefore at *
  cases hi : f.position? (p.select a) <;> cases hj : f.position? (p.select b) <;>
    simp only [hi, hj] at h ⊢
  · omega
  · exact not_false
  · omega

/-- There is no other such order of the instances. -/
theorem order_eq_of_precedes {l : List String} (hl : l.Nodup)
    (hmem : ∀ id, id ∈ l ↔ f.Reaches (p.select id)) (hsorted : l.Pairwise (f.Precedes p)) :
    f.order p = l := by
  refine List.Perm.eq_of_pairwise (fun a b _ _ hab hba => absurd hba hab.asymm) order_precedes
    hsorted ?_
  refine (List.perm_ext_iff_of_nodup order_nodup hl).2 fun id => ?_
  rw [mem_order, hmem]

/-! ## Markers stay hidden -/

/-- In the value at a path no section has a field for positions, except inside a value that is kept
whole at its key. -/
inductive HidesMarkers (f : FlatConfig) : Path → Value → Prop where
  /-- The value is that of a key, with nothing below it. -/
  | whole {p : Path} {v : Value} (hv : f.valueAt? p = some v) (hp : f.steps p = []) :
    f.HidesMarkers p v
  /-- A text has no fields. -/
  | text {p : Path} {s : String} : f.HidesMarkers p (.text s)
  /-- A section has no field for positions, and its fields hide them. -/
  | nested {p : Path} {fields : Tree} (names : ∀ e ∈ fields, e.1 ≠ indexField)
    (below : ∀ e ∈ fields, f.HidesMarkers (p ++ [.ofToken e.1.toList]) e.2) :
    f.HidesMarkers p (.nested fields)
  /-- No section of a list has a field for positions, and their fields hide them. -/
  | repeated {p : Path} {sections : List Tree} (hlen : sections.length = (f.order p).length)
    (names : ∀ t ∈ sections, ∀ e ∈ t, e.1 ≠ indexField)
    (below : ∀ (i : Nat) (id : String) (t : Tree), (f.order p)[i]? = some id →
      sections[i]? = some t → ∀ e ∈ t, f.HidesMarkers (p.select id ++ [.ofToken e.1.toList]) e.2) :
    f.HidesMarkers p (.repeated sections)

/-- The fields of a section hide the markers. -/
def FieldsHideMarkers (f : FlatConfig) (p : Path) (t : Tree) : Prop :=
  ∀ e ∈ t, e.1 ≠ indexField ∧ f.HidesMarkers (p ++ [.ofToken e.1.toList]) e.2

theorem FieldsHideMarkers.nested {t : Tree} (h : f.FieldsHideMarkers p t) :
    f.HidesMarkers p (.nested t) := .nested (fun e he => (h e he).1) fun e he => (h e he).2

theorem FieldsHideMarkers.instanceAt {id : String}
    (h : f.FieldsHideMarkers (p.select id) (f.fieldsAt (p.select id))) :
    f.FieldsHideMarkers (p.select id) (f.instanceAt p id) := by
  rw [FlatConfig.instanceAt, named]
  split_ifs
  · intro e he
    rcases Tree.mem_insert he with rfl | he
    · exact ⟨(by decide : nameField ≠ indexField), .text⟩
    · exact h e he
  · exact h

theorem hidesMarkers_leafValue {field : String} {v : Value} (hv : f.valueAt? p = some v)
    (hp : f.steps p = []) : f.HidesMarkers p (leafValue field v) := by
  unfold leafValue
  split
  · split_ifs
    · refine FieldsHideMarkers.nested fun e he => ?_
      cases List.mem_singleton.1 he
      exact ⟨(by decide : typeField ≠ indexField), .text⟩
    · exact .text
  · exact .whole hv hp

theorem fieldsHideMarkers_fieldsAt (h : ∀ s, f.Reaches (p ++ [s]) →
    ∀ field v, (f.place (p ++ [s])).toValue field = some v → f.HidesMarkers (p ++ [s]) v) :
    f.FieldsHideMarkers p (f.fieldsAt p) := by
  rintro ⟨name, w⟩ he
  obtain ⟨s, hs, hreaches, rfl, hw⟩ := mem_fieldsAt_iff.1 he
  have hlabel := hreaches.ofToken_label
  refine ⟨fun hindex => hs ?_, ?_⟩
  · rw [← hlabel, show s.label = _ from hindex]
    rfl
  · change f.HidesMarkers (p ++ [Segment.ofToken s.label.toList]) w
    rw [hlabel]
    exact h s hreaches _ _ hw

theorem hidesMarkers_of_fields (hfields : f.FieldsHideMarkers p (f.fieldsAt p))
    (hinstances : ∀ id ∈ f.order p,
      f.FieldsHideMarkers (p.select id) (f.fieldsAt (p.select id)))
    {field : String} {v : Value} (hv : (f.place p).toValue field = some v) :
    f.HidesMarkers p v := by
  rw [toValue_place] at hv
  split_ifs at hv with hnone hall
  · obtain ⟨w, hw, rfl⟩ := Option.map_eq_some_iff.1 hv
    exact hidesMarkers_leafValue hw (List.isEmpty_iff.1 hnone)
  · cases hv
    refine .repeated (List.length_map _) ?_ ?_
    · intro t ht e he
      obtain ⟨id, hid, rfl⟩ := List.mem_map.1 ht
      exact ((hinstances id hid).instanceAt e he).1
    · intro i id t hid ht e he
      rw [List.getElem?_map, hid] at ht
      cases ht
      exact ((hinstances id (List.mem_of_getElem? hid)).instanceAt e he).2
  · cases hv
    exact hfields.nested

/-- **No place is read as a section that shows a marker**, by induction on the places. -/
theorem hidesMarkers_place (p : Path) :
    (∀ field v, (f.place p).toValue field = some v → f.HidesMarkers p v) ∧
      f.FieldsHideMarkers p (f.fieldsAt p) := by
  have htidy := (place_holds (f := f) p).tidy
  generalize ht : f.place p = t at htidy
  induction htidy generalizing p with
  | @node value children distinct below inhabited ih =>
    have hstep : ∀ s, f.Reaches (p ++ [s]) →
        (∀ field v, (f.place (p ++ [s])).toValue field = some v →
          f.HidesMarkers (p ++ [s]) v) ∧
        f.FieldsHideMarkers (p ++ [s]) (f.fieldsAt (p ++ [s])) := by
      intro s hs
      have hmem : (s, f.place (p ++ [s])) ∈ (f.place p).children := mem_children_place.2 ⟨rfl, hs⟩
      rw [ht] at hmem
      exact ih _ hmem _ rfl
    have hfields := fieldsHideMarkers_fieldsAt fun s hs => (hstep s hs).1
    refine ⟨fun field v hv => ?_, hfields⟩
    rw [← ht] at hv
    exact hidesMarkers_of_fields hfields (fun id hid => (hstep _ (mem_order.1 hid)).2) hv

/-! ## Following the keys' paths in the tree -/

/-- One segment further from the value at a path: to a field of a section, or to the section that
has the rank of the instance. -/
def enter? (f : FlatConfig) (p : Path) : Value → Segment → Option Value
  | .nested fields, s => Tree.find? fields s.label
  | .repeated sections, .selector id => (sections[(f.order p).idxOf id]?).map Value.nested
  | _, _ => none

/-- The value that is come to from that at a base path along the rest of a path. -/
def follow? (f : FlatConfig) : Path → Value → Path → Option Value
  | _, v, [] => some v
  | base, v, s :: rest => (f.enter? base v s).bind fun w => f.follow? (base ++ [s]) w rest

/-- The value that the tree of the configuration has at a path. -/
def expandedAt? (f : FlatConfig) (p : Path) : Option Value := f.follow? [] (.nested f.expand) p

theorem follow?_append (base q : Path) (v : Value) (s : Segment) :
    f.follow? base v (q ++ [s]) =
      (f.follow? base v q).bind fun w => f.enter? (base ++ q) w s := by
  induction q generalizing base v with
  | nil => simp [follow?]
  | cons u q ih =>
    rw [List.cons_append, follow?, follow?, Option.bind_assoc]
    refine congrArg _ (funext fun w => ?_)
    rw [ih, List.append_assoc]
    rfl

theorem expandedAt?_append (s : Segment) :
    f.expandedAt? (p ++ [s]) = (f.expandedAt? p).bind fun v => f.enter? p v s :=
  follow?_append [] p _ s

theorem enter?_place {v : Value} {field : String} {s : Segment}
    (hv : (f.place p).toValue field = some v) (hs : s ≠ .field indexField)
    (h : f.Reaches (p ++ [s])) : f.enter? p v s = (f.place (p ++ [s])).toValue s.label ∨
      ∃ id, s = .selector id ∧ f.enter? p v s = some (.nested (f.instanceAt p id)) := by
  have hmem : s ∈ f.steps p := mem_steps.2 h
  rw [toValue_place, if_neg (by simp [List.ne_nil_of_mem hmem])] at hv
  split_ifs at hv with hall
  · cases hv
    cases s with
    | field name => exact nomatch List.all_eq_true.1 hall _ hmem
    | selector id =>
      have hid : id ∈ f.order p := mem_order.2 h
      refine .inr ⟨id, rfl, ?_⟩
      rw [enter?, List.getElem?_map, List.getElem?_idxOf hid]
      rfl
  · cases hv
    exact .inl (find?_fieldsAt hs h)

theorem enter?_instanceAt {id : String} {s : Segment} (hs : s ≠ .field indexField)
    (hname : s ≠ .field nameField) (h : f.Reaches (p.select id ++ [s])) :
    f.enter? (p.select id) (.nested (f.instanceAt p id)) s =
      (f.place (p.select id ++ [s])).toValue s.label := by
  have hlabel : s.label ≠ nameField := fun hlabel => hname <| by
    rw [← h.ofToken_label, hlabel]
    rfl
  rw [enter?, instanceAt, named, ← find?_fieldsAt hs h]
  split_ifs
  · rw [Tree.find?_insert, if_neg hlabel]
  · rfl

/-- **What stands in the tree at a path of the keys**: what its place becomes or, for an instance
of a list, its section. By induction from the end of the path. -/
theorem expandedAt?_eq {s : Segment} (h : f.Reaches (p ++ [s]))
    (hindex : .field indexField ∉ p ++ [s])
    (hname : (p ++ [s]).IsChain fun s t => s.isSelector = true → t ≠ .field nameField) :
    f.expandedAt? (p ++ [s]) = (f.place (p ++ [s])).toValue s.label ∨
      ∃ id, s = .selector id ∧ f.expandedAt? (p ++ [s]) = some (.nested (f.instanceAt p id)) := by
  have hs : s ≠ .field indexField := fun heq =>
    hindex (List.mem_append_right _ (List.mem_singleton.2 heq.symm))
  induction p using List.reverseRecOn generalizing s with
  | nil =>
    refine .inl ?_
    rw [expandedAt?_append]
    change f.expand.find? s.label = _
    rw [expand_eq_fieldsAt]
    exact find?_fieldsAt hs h
  | append_singleton q u ih =>
    have hq : f.Reaches (q ++ [u]) := h.of_prefix (List.prefix_append _ _)
    have hu : .field indexField ∉ q ++ [u] := fun hmem => hindex (List.mem_append_left _ hmem)
    have hchain := List.isChain_append.1 hname
    rw [expandedAt?_append]
    rcases ih hq hu hchain.1 (fun heq => hu (heq ▸ by simp)) with hplace | ⟨id, rfl, hinstance⟩
    · obtain ⟨v, hv⟩ := exists_toValue_place hq u.label
      rw [hplace, hv]
      exact enter?_place hv hs h
    · rw [hinstance]
      refine .inl (enter?_instanceAt hs ?_ h)
      exact hchain.2.2 (.selector id) (by simp) s (by simp) rfl

/-! ## The tree of any flat configuration -/

/-- The keys go on with selectors alone after the path, which ends with a field. There is no marker
on it, and no name of an instance. -/
structure IsList (f : FlatConfig) (p : Path) : Prop where
  field : p.baseField?.isSome = true
  inhabited : f.steps p ≠ []
  selectors : ∀ s ∈ f.steps p, s.isSelector = true
  unmarked : .field indexField ∉ p
  unnamed : p.IsChain fun s t => s.isSelector = true → t ≠ .field nameField

/-- The section of an instance has a text as its identity: its own one, else its selector as its
name. -/
structure IsElement (f : FlatConfig) (p : Path) (id : String) (t : Tree) : Prop where
  identified : t.identity? = some ((f.identity? (p.select id)).getD id)
  named : f.identity? (p.select id) = none → t.find? nameField = some (.text id)

theorem isElement_instanceAt (id : String) : f.IsElement p id (f.instanceAt p id) := by
  have hown : (f.fieldsAt (p.select id)).identity? = f.identity? (p.select id) :=
    identity?_fieldsAt_eq
  cases hid : f.identity? (p.select id) with
  | some own =>
    rw [hid] at hown
    rw [instanceAt, named_eq_self _ hown]
    exact ⟨by rw [hown, hid]; rfl, fun hnone => absurd (hid.symm.trans hnone) (by simp)⟩
  | none =>
    rw [hid] at hown
    have hname : (f.instanceAt p id).find? nameField = some (.text id) := by
      rw [instanceAt, Reconfig.named, hown]
      exact (Tree.find?_insert _ _ _ _).trans (if_pos rfl)
    refine ⟨?_, fun _ => hname⟩
    rw [Tree.identity?, hname, hid]
    rfl

theorem IsList.expandedAt?_eq (h : f.IsList p) :
    f.expandedAt? p = some (.repeated ((f.order p).map (f.instanceAt p))) := by
  obtain ⟨name, hname⟩ := Option.isSome_iff_exists.1 h.field
  obtain ⟨q, rfl⟩ := Path.exists_child_of_baseField? hname
  have hreaches : f.Reaches (q.child name) := by
    obtain ⟨s, hs⟩ := List.exists_mem_of_ne_nil _ h.inhabited
    exact Reaches.of_prefix (mem_steps.1 hs) (List.prefix_append _ _)
  rcases FlatConfig.expandedAt?_eq hreaches h.unmarked h.unnamed with heq | ⟨id, hid, -⟩
  · refine heq.trans ?_
    rw [← Path.child, toValue_place, if_neg (by simp [h.inhabited]),
      if_pos (List.all_eq_true.2 h.selectors)]
  · cases hid

/-- **The tree of any flat configuration** has no marker as a field, except inside a value that is
kept whole at its key. Where the keys go on with selectors alone, it has a list with one section
for each of them, which shows an identity; the sections are in the order of their markers, then in
that of their keys. -/
theorem expand_regroups (f : FlatConfig) :
    f.FieldsHideMarkers [] f.expand ∧
      (∀ p, (f.order p).Nodup ∧ (∀ id, id ∈ f.order p ↔ f.Reaches (p.select id)) ∧
        (f.order p).Pairwise (f.Precedes p)) ∧
      ∀ p, f.IsList p → ∃ sections, f.expandedAt? p = some (.repeated sections) ∧
        List.Forall₂ (f.IsElement p) (f.order p) sections := by
  refine ⟨?_, fun p => ⟨order_nodup, fun _ => mem_order, order_precedes⟩, fun p hp => ?_⟩
  · rw [expand_eq_fieldsAt]
    exact (hidesMarkers_place []).2
  · refine ⟨_, hp.expandedAt?_eq, List.forall₂_map_right_iff.2 ?_⟩
    exact List.forall₂_same.2 fun id _ => isElement_instanceAt id

end FlatConfig

/-- Keys below values, an open brace, a name with keys below it, and markers that are missing,
clash, stand astray or are no positions. -/
def tangled : FlatConfig where
  entries :=
    [("<index>", .scalar (.uint 1)),
      ("namespaces", .text "hidden"),
      ("namespaces.\x7ba\x7d.<index>", .scalar (.bool true)),
      ("namespaces.\x7ba\x7d.sets.\x7bs\x7d.ttl", .scalar (.uint 0)),
      ("namespaces.\x7bb\x7d.<index>", .text "7"),
      ("namespaces.\x7bb\x7d.type", .text "memory"),
      ("namespaces.\x7bc\x7d.<index>", .scalar (.int 7)),
      ("namespaces.\x7bc\x7d.name.\x7bx\x7d.y", .list []),
      ("service.<index>", .scalar (.uint 3)),
      ("service.\x7ba.b", .nested [("<index>", .list [])])]
  ordered := by decide +kernel

/-- Of the three namespaces two have the position 7 and the third has none. -/
theorem expand_regroups_of_tangled : tangled.FieldsHideMarkers [] tangled.expand ∧
    tangled.IsList [.field "namespaces"] ∧
    tangled.order [.field "namespaces"] = ["b", "c", "a"] ∧
    ∃ sections, tangled.expandedAt? [.field "namespaces"] = some (.repeated sections) ∧
      List.Forall₂ (tangled.IsElement [.field "namespaces"]) ["b", "c", "a"] sections := by
  have hsteps : tangled.steps [.field "namespaces"] =
      [.selector "a", .selector "b", .selector "c"] := by decide +kernel
  have ha : tangled.position? [.field "namespaces", .selector "a"] = none := by decide +kernel
  have hb : tangled.position? [.field "namespaces", .selector "b"] = some 7 := by decide +kernel
  have hc : tangled.position? [.field "namespaces", .selector "c"] = some 7 := by decide +kernel
  have hlist : tangled.IsList [.field "namespaces"] := by
    constructor <;> decide +kernel
  have horder : tangled.order [.field "namespaces"] = ["b", "c", "a"] := by
    refine FlatConfig.order_eq_of_precedes (by decide) (fun id => ?_) ?_
    · rw [Path.select, ← FlatConfig.mem_steps, hsteps]
      simp [or_comm, or_left_comm]
    · simp [FlatConfig.Precedes, FlatConfig.KeyedBefore, Path.select, hsteps, ha, hb, hc]
  obtain ⟨hhides, -, hlists⟩ := FlatConfig.expand_regroups tangled
  exact ⟨hhides, hlist, horder, horder ▸ hlists _ hlist⟩

end Reconfig
