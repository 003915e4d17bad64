import Mathlib.Data.List.Basic
import Reconfig.Command.Order
import Reconfig.Proofs.Key
import Reconfig.Proofs.Dict

/-!
# The arranged changes

Arranged changes run through the phases in their order, and every change that is not left out is
among them once. So a change of an earlier phase stands before every change of a later one.

* `destinationPath`, `namespacePath`: the paths of replication objects;
* `ReplicationPlace.IsAt`, **`of_isAt`**: the paths of a place;
* `ReplicationPlace.isIdentity`, `key_unique`: the places of identities;
* `Carries`: changes carry an operation at a place;
* `mem_departures_destinations`, `mem_departures_namespaces`: what changes remove;
* `rearrange_keys_distinct`, **`rearrange_ordered`**, `mem_before_of_rank_lt`: the arranged changes.
-/

namespace Reconfig

open Vocabulary (nameField)
open Reconfig.Path (parse render)

/-! ## Paths of replication objects -/

/-- The path of a destination. -/
def destinationPath (dc : String) : Path := [.field xdrContext, .field "dcs", .selector dc]

/-- The path of a namespace of a destination. -/
def namespacePath (dc ns : String) : Path :=
  destinationPath dc ++ [.field "namespaces", .selector ns]

/-- The path is one of the place. -/
def ReplicationPlace.IsAt (p : Path) : ReplicationPlace → Prop
  | .destination dc => p = (destinationPath dc).child nameField
  | .destinationField dc field => p = (destinationPath dc).child field
  | .namespaceOf dc ns => p = (namespacePath dc ns).child nameField
  | .namespaceField dc ns => namespacePath dc ns <+: p
  | .destinationNested dc => destinationPath dc <+: p
  | .root => True
  | .outside => True

namespace ReplicationPlace

theorem below_isAt (dc : String) (rest : Path) :
    (below dc rest).IsAt (destinationPath dc ++ rest) := by
  unfold below
  split
  · rename_i f
    split_ifs with h
    · rw [h]
      rfl
    · rfl
  · rename_i list ns rest
    split_ifs with hlist hrest
    · rw [hlist, hrest]
      rfl
    · rw [hlist]
      exact ⟨rest, rfl⟩
    · exact List.prefix_append _ _
  · exact List.prefix_append _ _

/-- **A path is one of its place.** -/
theorem of_isAt (p : Path) : (of p).IsAt p := by
  unfold of
  split
  · rename_i context rest
    split_ifs with hcontext
    · unfold within
      split
      · rename_i list dc rest
        split_ifs with hlist
        · rw [hcontext, hlist]
          exact below_isAt dc rest
        · trivial
      · trivial
    · trivial
  · trivial

theorem of_destination (dc : String) :
    of ((destinationPath dc).child nameField) = .destination dc := rfl

theorem of_namespace (dc ns : String) :
    of ((namespacePath dc ns).child nameField) = .namespaceOf dc ns := rfl

end ReplicationPlace

theorem placeOf_isAt (key : String) : (placeOf key).IsAt (parse key) :=
  ReplicationPlace.of_isAt (parse key)

theorem placeOf_eq_destination {key : String} {dc : String} (h : placeOf key = .destination dc) :
    key = render ((destinationPath dc).child nameField) := by
  have hat := placeOf_isAt key
  rw [h] at hat
  rw [← Path.render_parse key, show parse key = _ from hat]

theorem placeOf_eq_namespace {key : String} {dc ns : String}
    (h : placeOf key = .namespaceOf dc ns) :
    key = render ((namespacePath dc ns).child nameField) := by
  have hat := placeOf_isAt key
  rw [h] at hat
  rw [← Path.render_parse key, show parse key = _ from hat]

/-- The place is that of the identity of an object. -/
def ReplicationPlace.isIdentity : ReplicationPlace → Bool
  | .destination _ => true
  | .namespaceOf _ _ => true
  | _ => false

/-- **An identity has one key.** -/
theorem key_unique {key key' : String} {place : ReplicationPlace} (hid : place.isIdentity = true)
    (h : placeOf key = place) (h' : placeOf key' = place) : key = key' := by
  cases place with
  | destination dc => rw [placeOf_eq_destination h, placeOf_eq_destination h']
  | namespaceOf dc ns => rw [placeOf_eq_namespace h, placeOf_eq_namespace h']
  | destinationField dc field => cases hid
  | namespaceField dc ns => cases hid
  | destinationNested dc => cases hid
  | root => cases hid
  | outside => cases hid

/-! ## What changes carry -/

/-- A change at the place carries the operation. -/
def Carries (entries : List (String × Change)) (place : ReplicationPlace) (op : Operation) : Prop :=
  ∃ e ∈ entries, placeOf e.1 = place ∧ e.2.has op = true

theorem not_carries_nil (place : ReplicationPlace) (op : Operation) : ¬ Carries [] place op := by
  rintro ⟨e, he, -⟩
  cases he

theorem carries_append {before : List (String × Change)} {e : String × Change}
    {place : ReplicationPlace} {op : Operation} : Carries (before ++ [e]) place op ↔
      Carries before place op ∨ (placeOf e.1 = place ∧ e.2.has op = true) := by
  simp only [Carries, List.mem_append, List.mem_singleton, or_and_right, exists_or,
    exists_eq_left]

theorem Carries.mono {l m : List (String × Change)} {place : ReplicationPlace} {op : Operation}
    (h : Carries l place op) (hsub : ∀ e ∈ l, e ∈ m) : Carries m place op := by
  obtain ⟨e, he, hplace⟩ := h
  exact ⟨e, hsub e he, hplace⟩

theorem mem_departures_destinations {changes : ChangeSet} {dc : String} :
    dc ∈ (departures changes).destinations ↔
      Carries changes.entries (.destination dc) .remove := by
  rw [departures, List.mem_filterMap]
  refine exists_congr fun e => and_congr_right fun _ => ?_
  unfold departingDestination?
  cases placeOf e.1 <;> simp [and_comm]

theorem mem_departures_namespaces {changes : ChangeSet} {dc ns : String} :
    (dc, ns) ∈ (departures changes).namespaces ↔
      Carries changes.entries (.namespaceOf dc ns) .remove := by
  rw [departures, List.mem_filterMap]
  refine exists_congr fun e => and_congr_right fun _ => ?_
  unfold departingNamespace?
  cases placeOf e.1 <;> simp [and_comm]

/-! ## The arranged changes -/

/-- The number of a phase. -/
def Phase.rank : Phase → Nat
  | .detach => 0
  | .destinations => 1
  | .destinationFields => 2
  | .attach => 3
  | .remaining => 4

section Arranged

variable {changes : ChangeSet}

/-- **Arranged changes have distinct keys.** -/
theorem rearrange_keys_distinct : (rearrange changes).Pairwise (fun a b => a.1 ≠ b.1) := by
  rw [rearrange, List.pairwise_flatMap]
  refine ⟨fun p _ => (Dict.entries_distinct changes).filter _, ?_⟩
  have hphases : Phase.all.Pairwise (· ≠ ·) := by decide
  refine hphases.imp fun hpq a ha b hb heq => hpq ?_
  obtain ⟨ha, hp⟩ := List.mem_filter.1 ha
  obtain ⟨hb, hq⟩ := List.mem_filter.1 hb
  -- a key has one change, and the change has one phase
  obtain ⟨key, change⟩ := a
  obtain ⟨key', change'⟩ := b
  obtain rfl : key = key' := heq
  have hchange := (Dict.mem_entries.1 ha).symm.trans (Dict.mem_entries.1 hb)
  rw [Option.some.inj hchange] at hp
  rw [beq_iff_eq] at hp hq
  exact Option.some.inj (hp.symm.trans hq)

/-- **Arranged changes are in the order of their phases, then of their keys.** -/
theorem rearrange_ordered : (rearrange changes).Pairwise fun a b => ∀ p q,
    phase? (departures changes) a.1 a.2 = some p → phase? (departures changes) b.1 b.2 = some q →
      p.rank < q.rank ∨ (p = q ∧ a.1 < b.1) := by
  have same : ∀ {a : String × Change} {r p : Phase},
      a ∈ changes.entries.filter (fun e => phase? (departures changes) e.1 e.2 == some r) →
        phase? (departures changes) a.1 a.2 = some p → p = r := by
    intro a r p ha hp
    have hr := beq_iff_eq.1 (List.mem_filter.1 ha).2
    exact Option.some.inj (hp.symm.trans hr)
  rw [rearrange, List.pairwise_flatMap]
  constructor
  · intro r _
    refine (changes.ordered.filter _).imp_of_mem fun ha hb hlt p q hp hq => .inr ⟨?_, hlt⟩
    exact (same ha hp).trans (same hb hq).symm
  · have hphases : Phase.all.Pairwise (fun r r' => r.rank < r'.rank) := by decide
    refine hphases.imp fun hr a ha b hb p q hp hq => .inl ?_
    rw [same ha hp, same hb hq]
    exact hr

theorem rearrange_ranks : (rearrange changes).Pairwise fun a b => ∀ p q,
    phase? (departures changes) a.1 a.2 = some p → phase? (departures changes) b.1 b.2 = some q →
      p.rank ≤ q.rank := by
  refine rearrange_ordered.imp fun h p q hp hq => ?_
  rcases h p q hp hq with hlt | ⟨rfl, -⟩
  · exact Nat.le_of_lt hlt
  · exact Nat.le_refl _

/-- **A change of an earlier phase stands before every change of a later one.** -/
theorem mem_before_of_rank_lt {before after : List (String × Change)} {e e' : String × Change}
    (h : rearrange changes = before ++ e :: after) (he' : e' ∈ changes.entries) {p q : Phase}
    (hp : phase? (departures changes) e'.1 e'.2 = some p)
    (hq : phase? (departures changes) e.1 e.2 = some q) (hlt : p.rank < q.rank) :
    e' ∈ before := by
  have hmem : e' ∈ rearrange changes := mem_rearrange.2 ⟨he', by rw [hp]; rfl⟩
  have hranks : (rearrange changes).Pairwise _ := rearrange_ranks
  rw [h] at hmem hranks
  rw [List.pairwise_append, List.pairwise_cons] at hranks
  rcases List.mem_append.1 hmem with hbefore | hafter
  · exact hbefore
  · rcases List.mem_cons.1 hafter with rfl | hafter
    · rw [hp, Option.some.injEq] at hq
      rw [hq] at hlt
      omega
    · have := hranks.2.1.1 e' hafter q p hq hp
      omega

theorem carries_rearrange {place : ReplicationPlace} (hid : place.isIdentity = true)
    {op : Operation} :
    Carries (rearrange changes) place op ↔ Carries changes.entries place op := by
  refine ⟨fun hc => hc.mono fun e he => (mem_rearrange.1 he).1, ?_⟩
  rintro ⟨e, he, hplace, hop⟩
  refine ⟨e, mem_rearrange.2 ⟨he, ?_⟩, hplace, hop⟩
  rw [phase?, hplace]
  cases place with
  | destination dc =>
    dsimp only
    split_ifs <;> rfl
  | namespaceOf dc ns =>
    dsimp only
    split_ifs <;> rfl
  | destinationField dc field => cases hid
  | namespaceField dc ns => cases hid
  | destinationNested dc => cases hid
  | root => cases hid
  | outside => cases hid

end Arranged

end Reconfig
