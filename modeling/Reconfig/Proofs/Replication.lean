import Mathlib.Data.Finset.Basic
import Mathlib.Data.Finset.Filter
import Reconfig.Proofs.Order

/-!
# Replication objects under changes

A node has destinations, and namespaces attached to them. A change of an identity creates, deletes,
attaches or detaches an object, and any other change needs the objects around it. Changes that lead
from one set of objects to another can be applied in the order of their phases.

* `Replication`, `Replication.apply`, `Replication.step`, `Replication.run`: the objects of a node,
  and what changes do to them; a change that does not fit is refused;
* `Replication.Moves`: the changes lead from some objects to others;
* `Replication.Reflects`: the objects after some of the changes;
* **`Moves.step`**: the next change of the arranged ones fits;
* **`Moves.run`**: all of them fit, and lead to the other objects.
-/

namespace Reconfig

/-- The replication objects of a node: its destinations, and namespaces, each attached to one of
them. -/
structure Replication where
  destinations : Finset String
  namespaces : Finset (String × String)
  isAttached : ∀ a ∈ namespaces, a.1 ∈ destinations

namespace Replication

/-! ## What changes do -/

/-- Create a destination. -/
def create (s : Replication) (dc : String) : Replication where
  destinations := insert dc s.destinations
  namespaces := s.namespaces
  isAttached a ha := Finset.mem_insert_of_mem (s.isAttached a ha)

/-- Delete a destination with its namespaces. -/
def delete (s : Replication) (dc : String) : Replication where
  destinations := s.destinations.erase dc
  namespaces := s.namespaces.filter fun a => a.1 ≠ dc
  isAttached a ha := by
    obtain ⟨ha, hne⟩ := Finset.mem_filter.1 ha
    exact Finset.mem_erase.2 ⟨hne, s.isAttached a ha⟩

/-- Attach a namespace to a destination. -/
def attach (s : Replication) (dc ns : String) (h : dc ∈ s.destinations) : Replication where
  destinations := s.destinations
  namespaces := insert (dc, ns) s.namespaces
  isAttached a ha := by
    rcases Finset.mem_insert.1 ha with rfl | ha
    · exact h
    · exact s.isAttached a ha

/-- Detach a namespace from a destination. -/
def detach (s : Replication) (dc ns : String) : Replication where
  destinations := s.destinations
  namespaces := s.namespaces.erase (dc, ns)
  isAttached a ha := s.isAttached a (Finset.mem_of_mem_erase ha)

/-- What an operation does at a place, if it fits: an object is created or attached that is not
there yet, and any other operation is at objects that are there. -/
def apply (s : Replication) : ReplicationPlace → Operation → Option Replication
  | .destination dc, .add => if dc ∈ s.destinations then none else some (s.create dc)
  | .destination dc, .remove => if dc ∈ s.destinations then some (s.delete dc) else none
  | .destination dc, .update => if dc ∈ s.destinations then some s else none
  | .namespaceOf dc ns, .add =>
    if h : dc ∈ s.destinations ∧ (dc, ns) ∉ s.namespaces then some (s.attach dc ns h.1) else none
  | .namespaceOf dc ns, .remove =>
    if (dc, ns) ∈ s.namespaces then some (s.detach dc ns) else none
  | .namespaceOf dc ns, .update => if (dc, ns) ∈ s.namespaces then some s else none
  | .destinationField dc _, _ => if dc ∈ s.destinations then some s else none
  | .destinationNested dc, _ => if dc ∈ s.destinations then some s else none
  | .namespaceField dc ns, _ => if (dc, ns) ∈ s.namespaces then some s else none
  | .root, _ => some s
  | .outside, _ => some s

/-- What a change does: its operations in their order. -/
def step (s : Replication) (e : String × Change) : Option Replication :=
  e.2.operations.foldlM (fun s o => s.apply (placeOf e.1) o.1) s

/-- What changes do one after another. -/
def run (s : Replication) (entries : List (String × Change)) : Option Replication :=
  entries.foldlM step s

/-! ## Changes that lead from some objects to others -/

/-- A change at a place may be one of those that lead from some objects to others. -/
def IsMove (s t : Replication) (change : Change) : ReplicationPlace → Prop
  | .destination dc =>
    (dc ∉ s.destinations ∧ dc ∈ t.destinations ∧ ∃ v, change = .add v) ∨
      (dc ∈ s.destinations ∧ dc ∉ t.destinations ∧ ∃ v, change = .remove v)
  | .namespaceOf dc ns =>
    ((dc, ns) ∉ s.namespaces ∧ (dc, ns) ∈ t.namespaces ∧ ∃ v, change = .add v) ∨
      ((dc, ns) ∈ s.namespaces ∧ (dc, ns) ∉ t.namespaces ∧ dc ∈ t.destinations ∧
        ∃ v, change = .remove v ∨ change = .update v)
  | .destinationField dc _ => dc ∈ s.destinations ∨ dc ∈ t.destinations
  | .destinationNested dc => dc ∈ s.destinations ∨ dc ∈ t.destinations
  | .namespaceField dc ns => (dc, ns) ∈ s.namespaces ∨ (dc, ns) ∈ t.namespaces
  | .root => True
  | .outside => True

/-- **The changes lead from some objects to others.** Missing destinations are created and others
deleted, and missing namespaces are attached; other namespaces may stay. -/
structure Moves (s t : Replication) (changes : ChangeSet) : Prop where
  isMove : ∀ e ∈ changes.entries, IsMove s t e.2 (placeOf e.1)
  creates : ∀ dc ∈ t.destinations, dc ∉ s.destinations →
    Carries changes.entries (.destination dc) .add
  deletes : ∀ dc ∈ s.destinations, dc ∉ t.destinations →
    Carries changes.entries (.destination dc) .remove
  attaches : ∀ dc ns, (dc, ns) ∈ t.namespaces → (dc, ns) ∉ s.namespaces →
    Carries changes.entries (.namespaceOf dc ns) .add

/-- **The objects after some changes**, told by what the changes carry: the destinations that have
not been deleted and those created, the namespaces that have been neither detached nor deleted with
their destination and those attached. -/
structure Reflects (s : Replication) (done : List (String × Change)) (u : Replication) : Prop where
  mem_destinations : ∀ dc, dc ∈ u.destinations ↔
    (dc ∈ s.destinations ∧ ¬ Carries done (.destination dc) .remove) ∨
      Carries done (.destination dc) .add
  mem_namespaces : ∀ dc ns, (dc, ns) ∈ u.namespaces ↔
    ((dc, ns) ∈ s.namespaces ∧ ¬ Carries done (.namespaceOf dc ns) .remove ∧
        ¬ Carries done (.destination dc) .remove) ∨
      Carries done (.namespaceOf dc ns) .add

theorem reflects_nil (s : Replication) : s.Reflects [] s where
  mem_destinations dc := by simp [not_carries_nil]
  mem_namespaces dc ns := by simp [not_carries_nil]

namespace Moves

section Facts

variable {s t : Replication} {changes : ChangeSet} (h : s.Moves t changes)

include h

theorem of_creates {dc : String} (hc : Carries changes.entries (.destination dc) .add) :
    dc ∉ s.destinations ∧ dc ∈ t.destinations := by
  obtain ⟨e, he, hplace, hop⟩ := hc
  have hmove := h.isMove e he
  rw [hplace] at hmove
  rcases hmove with ⟨hs, ht, -⟩ | ⟨-, -, v, hv⟩
  · exact ⟨hs, ht⟩
  · rw [hv] at hop
    cases hop

theorem of_deletes {dc : String} (hc : Carries changes.entries (.destination dc) .remove) :
    dc ∈ s.destinations ∧ dc ∉ t.destinations := by
  obtain ⟨e, he, hplace, hop⟩ := hc
  have hmove := h.isMove e he
  rw [hplace] at hmove
  rcases hmove with ⟨-, -, v, hv⟩ | ⟨hs, ht, -⟩
  · rw [hv] at hop
    cases hop
  · exact ⟨hs, ht⟩

theorem of_attaches {dc ns : String} (hc : Carries changes.entries (.namespaceOf dc ns) .add) :
    (dc, ns) ∉ s.namespaces ∧ (dc, ns) ∈ t.namespaces := by
  obtain ⟨e, he, hplace, hop⟩ := hc
  have hmove := h.isMove e he
  rw [hplace] at hmove
  rcases hmove with ⟨hs, ht, -⟩ | ⟨-, -, -, v, hv | hv⟩
  · exact ⟨hs, ht⟩
  all_goals
    rw [hv] at hop
    cases hop

theorem of_detaches {dc ns : String}
    (hc : Carries changes.entries (.namespaceOf dc ns) .remove) :
    (dc, ns) ∈ s.namespaces ∧ (dc, ns) ∉ t.namespaces ∧ dc ∈ t.destinations := by
  obtain ⟨e, he, hplace, hop⟩ := hc
  have hmove := h.isMove e he
  rw [hplace] at hmove
  rcases hmove with ⟨-, -, v, hv⟩ | ⟨hs, ht, hdc, -⟩
  · rw [hv] at hop
    cases hop
  · exact ⟨hs, ht, hdc⟩

end Facts

/-! ## The next change -/

section Next

variable {s t u : Replication} {changes : ChangeSet} (h : s.Moves t changes)
  {before after : List (String × Change)} {e : String × Change}
  (hl : rearrange changes = before ++ e :: after) (hu : s.Reflects before u)

theorem mem_entries_of_before (hl : rearrange changes = before ++ e :: after) :
    ∀ e' ∈ before, e' ∈ changes.entries := fun e' he' =>
  (mem_rearrange.1 (by rw [hl]; exact List.mem_append_left _ he')).1

theorem mem_entries_of_next (hl : rearrange changes = before ++ e :: after) :
    e ∈ changes.entries ∧ (phase? (departures changes) e.1 e.2).isSome = true :=
  mem_rearrange.1 (by rw [hl]; exact List.mem_append_right _ List.mem_cons_self)

theorem not_carries_before (hl : rearrange changes = before ++ e :: after)
    {place : ReplicationPlace} (hid : place.isIdentity = true) (hplace : placeOf e.1 = place)
    (op : Operation) : ¬ Carries before place op := by
  rintro ⟨e', he', hplace', -⟩
  have hdistinct : (rearrange changes).Pairwise _ := rearrange_keys_distinct
  rw [hl, List.pairwise_append] at hdistinct
  exact hdistinct.2.2 e' he' e List.mem_cons_self (key_unique hid hplace' hplace)

include h hl hu

theorem mem_destinations {dc : String} (hdc : dc ∈ s.destinations ∨ dc ∈ t.destinations)
    (hstays : ¬ Carries changes.entries (.destination dc) .remove) {q : Phase}
    (hq : phase? (departures changes) e.1 e.2 = some q) (hlt : Phase.destinations.rank < q.rank) :
    dc ∈ u.destinations := by
  rw [hu.mem_destinations]
  by_cases hs : dc ∈ s.destinations
  · exact .inl ⟨hs, fun hc => hstays (hc.mono (mem_entries_of_before hl))⟩
  · obtain ⟨e', he', hplace, hadd⟩ := h.creates dc (hdc.resolve_left hs) hs
    have hphase : phase? (departures changes) e'.1 e'.2 = some .destinations := by
      rw [phase?, hplace]
      simp only [hadd, Bool.true_or, if_true]
    exact .inr ⟨e', mem_before_of_rank_lt hl he' hphase hq hlt, hplace, hadd⟩

theorem mem_namespaces {dc ns : String} (hns : (dc, ns) ∈ s.namespaces ∨ (dc, ns) ∈ t.namespaces)
    (hstays : ¬ Carries changes.entries (.destination dc) .remove)
    (hstays' : ¬ Carries changes.entries (.namespaceOf dc ns) .remove) {q : Phase}
    (hq : phase? (departures changes) e.1 e.2 = some q) (hlt : Phase.attach.rank < q.rank) :
    (dc, ns) ∈ u.namespaces := by
  rw [hu.mem_namespaces]
  by_cases hs : (dc, ns) ∈ s.namespaces
  · exact .inl ⟨hs, fun hc => hstays' (hc.mono (mem_entries_of_before hl)),
      fun hc => hstays (hc.mono (mem_entries_of_before hl))⟩
  · obtain ⟨e', he', hplace, hadd⟩ := h.attaches dc ns (hns.resolve_left hs) hs
    have hmove := h.isMove e' he'
    rw [hplace] at hmove
    have hphase : phase? (departures changes) e'.1 e'.2 = some .attach := by
      rcases hmove with ⟨-, -, v, hv⟩ | ⟨hs', -⟩
      · rw [phase?, hplace, hv]
        rfl
      · exact absurd hs' hs
    exact .inr ⟨e', mem_before_of_rank_lt hl he' hphase hq hlt, hplace, hadd⟩

end Next

end Moves

theorem step_of_one {s : Replication} {key : String} {change : Change} {op : Operation} {v : Value}
    (h : change.operations = [(op, v)]) : s.step (key, change) = s.apply (placeOf key) op := by
  rw [step, h, List.foldlM_cons]
  cases s.apply (placeOf key) op <;> rfl

theorem step_of_stays {s : Replication} {e : String × Change}
    (h : ∀ op, s.apply (placeOf e.1) op = some s) : s.step e = some s := by
  unfold step
  induction e.2.operations with
  | nil => rfl
  | cons o rest ih =>
    rw [List.foldlM_cons, h]
    exact ih

theorem Reflects.stays {s u : Replication} {before : List (String × Change)}
    (hu : s.Reflects before u) {e : String × Change}
    (hquiet : (placeOf e.1).isIdentity = true → ∀ op, e.2.has op = true → op = .update) :
    s.Reflects (before ++ [e]) u := by
  have same : ∀ {place : ReplicationPlace} {op : Operation}, place.isIdentity = true →
      op ≠ .update → (Carries (before ++ [e]) place op ↔ Carries before place op) := by
    intro place op hid hop
    rw [carries_append, or_iff_left]
    rintro ⟨rfl, hhas⟩
    exact hop (hquiet hid op hhas)
  constructor
  · intro dc
    rw [same rfl (by decide), same rfl (by decide), hu.mem_destinations]
  · intro dc ns
    rw [same rfl (by decide), same rfl (by decide), same rfl (by decide), hu.mem_namespaces]

namespace Moves

section Identities

variable {s t u : Replication} {changes : ChangeSet} (h : s.Moves t changes)
  {before after : List (String × Change)} {key : String} {v : Value}

theorem step_create {dc : String} (hl : rearrange changes = before ++ (key, .add v) :: after)
    (hu : s.Reflects before u) (hplace : placeOf key = .destination dc)
    (hs : dc ∉ s.destinations) :
    ∃ u', u.step (key, .add v) = some u' ∧ s.Reflects (before ++ [(key, .add v)]) u' := by
  have hfirst := not_carries_before hl rfl hplace
  have habsent : dc ∉ u.destinations := by
    rw [hu.mem_destinations]
    rintro (⟨hdc, -⟩ | hc)
    · exact hs hdc
    · exact hfirst .add hc
  refine ⟨u.create dc, ?_, ?_, ?_⟩
  · rw [step_of_one (rfl : (Change.add v).operations = [(.add, v)]), hplace, apply, if_neg habsent]
  · intro dc'
    rw [create, Finset.mem_insert, hu.mem_destinations, carries_append, carries_append, hplace]
    simp only [ReplicationPlace.destination.injEq, Change.has, Change.value?, Option.isSome_none,
      Option.isSome_some, Bool.false_eq_true, and_false, or_false, and_true]
    rw [or_left_comm, eq_comm, or_comm (a := dc = dc')]
  · intro dc' ns
    rw [create, hu.mem_namespaces, carries_append, carries_append, carries_append, hplace]
    simp [Change.has, Change.value?]

include h

theorem step_delete {dc : String} (hl : rearrange changes = before ++ (key, .remove v) :: after)
    (hu : s.Reflects before u) (hplace : placeOf key = .destination dc)
    (hs : dc ∈ s.destinations) (ht : dc ∉ t.destinations) :
    ∃ u', u.step (key, .remove v) = some u' ∧ s.Reflects (before ++ [(key, .remove v)]) u' := by
  have hfirst := not_carries_before hl rfl hplace
  have hpresent : dc ∈ u.destinations := by
    rw [hu.mem_destinations]
    exact .inl ⟨hs, hfirst .remove⟩
  refine ⟨u.delete dc, ?_, ?_, ?_⟩
  · rw [step_of_one (rfl : (Change.remove v).operations = [(.remove, v)]), hplace, apply,
      if_pos hpresent]
  · intro dc'
    rw [delete, Finset.mem_erase, hu.mem_destinations, carries_append, carries_append, hplace]
    by_cases heq : dc = dc'
    · subst heq
      simp [Change.has, Change.value?, hfirst]
    · simp [Change.has, Change.value?, heq, Ne.symm heq]
  · intro dc' ns
    rw [delete, Finset.mem_filter, hu.mem_namespaces, carries_append, carries_append,
      carries_append, hplace]
    by_cases heq : dc = dc'
    · -- nothing has been attached to the destination, as it is not to be there in the end
      subst heq
      have hnone : ¬ Carries before (.namespaceOf dc ns) .add := fun hc =>
        ht (t.isAttached _ (h.of_attaches (hc.mono (mem_entries_of_before hl))).2)
      simp [Change.has, Change.value?, hnone]
    · simp [Change.has, Change.value?, heq, Ne.symm heq]

omit h in
theorem step_attach {dc ns : String} (hl : rearrange changes = before ++ (key, .add v) :: after)
    (hu : s.Reflects before u) (hplace : placeOf key = .namespaceOf dc ns)
    (hs : (dc, ns) ∉ s.namespaces) (hdc : dc ∈ u.destinations) :
    ∃ u', u.step (key, .add v) = some u' ∧ s.Reflects (before ++ [(key, .add v)]) u' := by
  have hfirst := not_carries_before hl rfl hplace
  have habsent : (dc, ns) ∉ u.namespaces := by
    rw [hu.mem_namespaces]
    rintro (⟨hns, -⟩ | hc)
    · exact hs hns
    · exact hfirst .add hc
  refine ⟨u.attach dc ns hdc, ?_, ?_, ?_⟩
  · rw [step_of_one (rfl : (Change.add v).operations = [(.add, v)]), hplace, apply,
      dif_pos ⟨hdc, habsent⟩]
  · intro dc'
    rw [attach, hu.mem_destinations, carries_append, carries_append, hplace]
    simp [Change.has, Change.value?]
  · intro dc' ns'
    rw [attach, Finset.mem_insert, hu.mem_namespaces, carries_append, carries_append,
      carries_append, hplace]
    by_cases heq : dc = dc' ∧ ns = ns'
    · obtain ⟨rfl, rfl⟩ := heq
      simp [Change.has, Change.value?]
    · have hne : (dc', ns') ≠ (dc, ns) := fun h => heq (by cases h; exact ⟨rfl, rfl⟩)
      simp [Change.has, Change.value?, heq, hne]

theorem step_detach {dc ns : String}
    (hl : rearrange changes = before ++ (key, .remove v) :: after) (hu : s.Reflects before u)
    (hplace : placeOf key = .namespaceOf dc ns) (hs : (dc, ns) ∈ s.namespaces)
    (ht : dc ∈ t.destinations) :
    ∃ u', u.step (key, .remove v) = some u' ∧ s.Reflects (before ++ [(key, .remove v)]) u' := by
  have hfirst := not_carries_before hl rfl hplace
  have hpresent : (dc, ns) ∈ u.namespaces := by
    rw [hu.mem_namespaces]
    exact .inl ⟨hs, hfirst .remove,
      fun hc => (h.of_deletes (hc.mono (mem_entries_of_before hl))).2 ht⟩
  refine ⟨u.detach dc ns, ?_, ?_, ?_⟩
  · rw [step_of_one (rfl : (Change.remove v).operations = [(.remove, v)]), hplace, apply,
      if_pos hpresent]
  · intro dc'
    rw [detach, hu.mem_destinations, carries_append, carries_append, hplace]
    simp [Change.has, Change.value?]
  · intro dc' ns'
    rw [detach, Finset.mem_erase, hu.mem_namespaces, carries_append, carries_append,
      carries_append, hplace]
    by_cases heq : dc = dc' ∧ ns = ns'
    · obtain ⟨rfl, rfl⟩ := heq
      simp [Change.has, Change.value?, hfirst]
    · have hne : (dc', ns') ≠ (dc, ns) := fun h => heq (by cases h; exact ⟨rfl, rfl⟩)
      simp [Change.has, Change.value?, heq, hne]

end Identities

section Run

variable {s t : Replication} {changes : ChangeSet} (h : s.Moves t changes)

include h

/-- **The next change of the arranged ones fits**, and the objects are known after it. -/
theorem step {u : Replication} {before after : List (String × Change)} {e : String × Change}
    (hl : rearrange changes = before ++ e :: after) (hu : s.Reflects before u) :
    ∃ u', u.step e = some u' ∧ s.Reflects (before ++ [e]) u' := by
  obtain ⟨he, hkept⟩ := mem_entries_of_next hl
  obtain ⟨q, hq⟩ := Option.isSome_iff_exists.1 hkept
  have hmove := h.isMove e he
  obtain ⟨key, change⟩ := e
  dsimp only at hq hmove
  -- a change at another place than an identity needs its object and leaves all objects alone
  have stays : (∀ op, u.apply (placeOf key) op = some u) → (placeOf key).isIdentity = false →
      ∃ u', u.step (key, change) = some u' ∧ s.Reflects (before ++ [(key, change)]) u' := by
    intro happly hid
    refine ⟨u, step_of_stays happly, hu.stays fun hid' => ?_⟩
    rw [hid] at hid'
    cases hid'
  have remains : ∀ {dc}, dc ∉ (departures changes).destinations →
      ¬ Carries changes.entries (.destination dc) .remove :=
    fun hdc hc => hdc (mem_departures_destinations.2 hc)
  have hq' := hq
  rw [phase?] at hq'
  cases hplace : placeOf key with
  | destination dc =>
    rw [hplace] at hmove
    rcases hmove with ⟨hs, -, v, rfl⟩ | ⟨hs, ht, v, rfl⟩
    · exact step_create hl hu hplace hs
    · exact h.step_delete hl hu hplace hs ht
  | namespaceOf dc ns =>
    rw [hplace] at hmove hq'
    rcases hmove with ⟨hs, ht, v, rfl⟩ | ⟨hs, -, hdc, v, rfl | rfl⟩
    · have hdc := t.isAttached _ ht
      obtain rfl : Phase.attach = q := Option.some.inj hq'
      refine step_attach hl hu hplace hs (h.mem_destinations hl hu (.inr hdc) ?_ hq (by decide))
      exact fun hc => (h.of_deletes hc).2 hdc
    · exact h.step_detach hl hu hplace hs hdc
    · have hfirst := not_carries_before hl rfl hplace
      have hpresent : (dc, ns) ∈ u.namespaces := by
        rw [hu.mem_namespaces]
        exact .inl ⟨hs, hfirst .remove,
          fun hc => (h.of_deletes (hc.mono (mem_entries_of_before hl))).2 hdc⟩
      refine ⟨u, ?_, hu.stays fun _ op hop => ?_⟩
      · rw [step_of_one (rfl : (Change.update v).operations = [(.update, v)]), hplace, apply,
          if_pos hpresent]
      · cases op with
        | update => rfl
        | add => cases hop
        | remove => cases hop
  | destinationField dc field =>
    rw [hplace] at hmove hq'
    obtain ⟨hkept, heq⟩ := Option.ite_none_left_eq_some.1 hq'
    obtain rfl : Phase.destinationFields = q := Option.some.inj heq
    have hpresent := h.mem_destinations hl hu hmove (remains (by simpa using hkept)) hq (by decide)
    exact stays (fun op => by rw [hplace, apply, if_pos hpresent]) (by rw [hplace]; rfl)
  | namespaceField dc ns =>
    rw [hplace] at hmove hq'
    obtain ⟨hkept, heq⟩ := Option.ite_none_left_eq_some.1 hq'
    obtain rfl : Phase.remaining = q := Option.some.inj heq
    rw [Bool.or_eq_true, not_or, List.contains_iff_mem, List.contains_iff_mem] at hkept
    have hpresent := h.mem_namespaces hl hu hmove (remains hkept.1)
      (fun hc => hkept.2 (mem_departures_namespaces.2 hc)) hq (by decide)
    exact stays (fun op => by rw [hplace, apply, if_pos hpresent]) (by rw [hplace]; rfl)
  | destinationNested dc =>
    rw [hplace] at hmove hq'
    obtain ⟨hkept, heq⟩ := Option.ite_none_left_eq_some.1 hq'
    obtain rfl : Phase.remaining = q := Option.some.inj heq
    have hpresent := h.mem_destinations hl hu hmove (remains (by simpa using hkept)) hq (by decide)
    exact stays (fun op => by rw [hplace, apply, if_pos hpresent]) (by rw [hplace]; rfl)
  | root => exact stays (fun op => by rw [hplace, apply]) (by rw [hplace]; rfl)
  | outside => exact stays (fun op => by rw [hplace, apply]) (by rw [hplace]; rfl)

theorem run_from {before after : List (String × Change)} {u : Replication}
    (hl : rearrange changes = before ++ after) (hu : s.Reflects before u) :
    ∃ u', u.run after = some u' ∧ s.Reflects (before ++ after) u' := by
  induction after generalizing before u with
  | nil => exact ⟨u, rfl, by rwa [List.append_nil]⟩
  | cons e rest ih =>
    obtain ⟨u', hstep, hu'⟩ := h.step hl hu
    have hl' : rearrange changes = before ++ [e] ++ rest := by
      rw [hl, List.append_assoc, List.singleton_append]
    obtain ⟨final, hrun, hfinal⟩ := ih hl' hu'
    refine ⟨final, ?_, ?_⟩
    · rw [Replication.run, List.foldlM_cons, hstep]
      exact hrun
    · rwa [← hl', hl] at hfinal

/-- **All arranged changes fit**, and lead to the other objects. -/
theorem run : ∃ u, s.run (rearrange changes) = some u ∧ u.destinations = t.destinations ∧
    t.namespaces ⊆ u.namespaces := by
  obtain ⟨u, hrun, hu⟩ := h.run_from (List.nil_append _).symm s.reflects_nil
  rw [List.nil_append] at hu
  refine ⟨u, hrun, ?_, ?_⟩
  · ext dc
    rw [hu.mem_destinations, carries_rearrange rfl, carries_rearrange rfl]
    constructor
    · rintro (⟨hs, hkept⟩ | hc)
      · by_contra ht
        exact hkept (h.deletes dc hs ht)
      · exact (h.of_creates hc).2
    · intro ht
      by_cases hs : dc ∈ s.destinations
      · exact .inl ⟨hs, fun hc => (h.of_deletes hc).2 ht⟩
      · exact .inr (h.creates dc ht hs)
  · rintro ⟨dc, ns⟩ ht
    rw [hu.mem_namespaces, carries_rearrange rfl, carries_rearrange rfl, carries_rearrange rfl]
    by_cases hs : (dc, ns) ∈ s.namespaces
    · refine .inl ⟨hs, fun hc => (h.of_detaches hc).2.1 ht, fun hc => ?_⟩
      exact (h.of_deletes hc).2 (t.isAttached _ ht)
    · exact .inr (h.attaches dc ns ht hs)

end Run

end Moves

end Replication

end Reconfig
