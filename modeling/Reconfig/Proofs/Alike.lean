import Mathlib.Data.Option.Defs
import Reconfig.Proofs.Numeral
import Reconfig.Proofs.Reach

/-!
# Configurations that say the same

Values of a running node arrive as texts, and a list of one element as that element. Two values are
alike if they differ in this alone, or in the order and the repetition of the elements of a list.
Configurations whose values are alike at every key need no changes.

* `Value.Alike`: the values that say the same;
* `Scalar.agrees_shown`: a value agrees with its text, in either order;
* `changeTo?_of_alike`: alike values need no change;
* **`report_isEmpty_of_alike`**: the comparison of alike configurations finds nothing, and neither
  does that of a configuration with itself.
-/

namespace Reconfig

open Reconfig.Path (parse)

/-- The text of the scalar determines it; that of a number with a fraction need not. -/
def Scalar.isExact : Scalar → Bool
  | .float _ => false
  | _ => true

/-- **The values that say the same**: equal values with finite numbers, an exact scalar and its
text, lists with the same elements, a list and the text that counts as that list. -/
inductive Value.Alike : Value → Value → Prop
  | same {v w : Value} : v.isRegular = true → v.same w = true → Alike v w
  | shown {s : Scalar} : s.isExact = true → Alike (.scalar s) (.text s.render)
  | read {s : Scalar} : s.isExact = true → Alike (.text s.render) (.scalar s)
  | lists {items others : List String} : (∀ x, x ∈ items ↔ x ∈ others) →
      Alike (.list items) (.list others)
  | element {x : String} : isBlankText x = false → Alike (.list [x]) (.text x)
  | singleton {x : String} : isBlankText x = false → Alike (.text x) (.list [x])
  | blank {x : String} : isBlankText x = true → Alike (.list []) (.text x)
  | empty {x : String} : isBlankText x = true → Alike (.text x) (.list [])

/-! ## Scalars -/

theorem Binary64.near_of_same {x y : Binary64} (hx : x.isFinite = true) (h : x.same y = true) :
    x.near y = true := by
  cases x with
  | nan => cases hx
  | infinite a => cases hx
  | finite a m e hc =>
    cases y with
    | nan => cases h
    | infinite b => cases h
    | finite b k f hd =>
      simp only [same, steps?, beq_iff_eq] at h
      simp only [near, steps?, h, Int.sub_self, Int.natAbs_zero, roundSteps_zero, Nat.zero_le,
        decide_true]

theorem Scalar.agrees_of_same {a b : Scalar} (ha : a.isFinite = true) (h : a.same b = true) :
    a.agrees b = true := by
  cases a with
  | float x =>
    cases b with
    | float y =>
      have hnear : x.near y = true := Binary64.near_of_same ha h
      simp [agrees, number?, sameNumber, integer?, toBinary64?, hnear]
    | text t | bool b | int i | uint n => cases h
  | text t | bool p | int i | uint n =>
    obtain rfl := eq_of_beq (by simpa only [same] using h)
    exact agrees_self ha

theorem Scalar.agrees_integer {n m : Scalar} {i : Int} {t : String} (hn : n.integer? = some i)
    (hm : m.integer? = some i) (ht : numberOfText? t = some m) :
    n.agrees (.text t) = true ∧ (Scalar.text t).agrees n = true := by
  have hsame : n.sameNumber m = true ∧ m.sameNumber n = true := by simp [sameNumber, hn, hm]
  cases n with
  | int j | uint k =>
    exact ⟨by simp [agrees, number?, ht, hsame], by simp [agrees, number?, ht, hsame]⟩
  | text s | bool b | float x => cases hn

theorem Scalar.agrees_shown {s : Scalar} (h : s.isExact = true) :
    s.agrees (.text s.render) = true ∧ (Scalar.text s.render).agrees s = true := by
  cases s with
  | float x => cases h
  | text t => simp [agrees, render]
  | bool b => simp [agrees, number?, render]
  | int i =>
    obtain ⟨m, hm, hi⟩ := exists_number_of_text i.le_toInt (Int.lt_trans i.toInt_lt (by decide))
      (trim_toString i.toInt)
    exact agrees_integer rfl hi hm
  | uint n =>
    obtain ⟨m, hm, hi⟩ := exists_number_of_text (i := n.toNat) (by omega)
      (Int.ofNat_lt.2 n.toNat_lt) (trim_toString n.toNat)
    exact agrees_integer rfl hi hm

/-! ## Values -/

theorem changeTo?_of_same {v w : Value} (hv : v.isRegular = true) (h : v.same w = true) :
    v.changeTo? w = none := by
  cases v with
  | nested fields => rfl
  | scalar a =>
    cases w with
    | scalar b => exact if_pos (Scalar.agrees_of_same hv h)
    | list items | nested fields | repeated sections => cases h
  | list items =>
    cases w with
    | list others =>
      obtain rfl : items = others := by simpa only [Value.same, beq_iff_eq] using h
      exact setChange?_eq_none fun _ => Iff.rfl
    | scalar b | nested fields | repeated sections => cases h
  | repeated sections =>
    cases w with
    | repeated others =>
      rw [Value.changeTo?, if_pos h]
      all_goals simp
    | scalar b | list items | nested fields => cases h

/-- **Alike values need no change.** -/
theorem changeTo?_of_alike {v w : Value} (h : v.Alike w) : v.changeTo? w = none := by
  have hblank : ∀ {x}, isBlankText x = true → (Scalar.text x).elements = [] := fun h => if_pos h
  have hfilled : ∀ {x}, isBlankText x = false → (Scalar.text x).elements = [x] := fun h =>
    if_neg (Bool.eq_false_iff.1 h)
  cases h with
  | same hv h => exact changeTo?_of_same hv h
  | shown h => exact if_pos (Scalar.agrees_shown h).1
  | read h => exact if_pos (Scalar.agrees_shown h).2
  | lists h => exact setChange?_eq_none h
  | element h | singleton h =>
    rw [Value.text, Value.changeTo?, hfilled h]
    exact setChange?_eq_none fun _ => Iff.rfl
  | blank h | empty h =>
    rw [Value.text, Value.changeTo?, hblank h]
    exact setChange?_eq_none fun _ => Iff.rfl

/-! ## Configurations -/

/-- The report names no key. -/
def DiffReport.isEmpty (r : DiffReport) : Bool := r.changes.isEmpty && r.unresolved.isEmpty

namespace Comparison

variable {c : Comparison}
  (h : ∀ key, (parse key).isIndexMarker = false →
    Option.Rel Value.Alike (c.desired.find? key) (c.current.find? key))

include h

theorem desiredChange?_of_alike {key : String} {v : Value} (hv : c.desired.find? key = some v) :
    c.desiredChange? key v = none := by
  rw [desiredChange?]
  cases hx : isExcluded c.options (parse key) with
  | true => rfl
  | false =>
    have hmarker : (parse key).isIndexMarker = false := by
      rw [isExcluded, Bool.or_eq_false_iff] at hx
      exact hx.1
    have hkey := h key hmarker
    rw [hv] at hkey
    cases hw : c.current.find? key with
    | none =>
      rw [hw] at hkey
      cases hkey
    | some w =>
      rw [hw] at hkey
      cases hkey with
      | some halike => exact changeTo?_of_alike halike

theorem currentOutcome_of_alike {key : String} {w : Value} (hw : c.current.find? key = some w) :
    c.currentOutcome c.reopened key w = .unchanged := by
  cases hx : isExcluded c.options (parse key) with
  | true => exact currentOutcome_of_excluded w hx
  | false =>
    refine currentOutcome_of_desired w (Dict.contains_eq_true.2 ?_)
    rw [isExcluded, Bool.or_eq_false_iff] at hx
    have hkey := h key hx.1
    rw [hw] at hkey
    cases hv : c.desired.find? key with
    | none =>
      rw [hv] at hkey
      cases hkey
    | some v => exact ⟨v, rfl⟩

theorem report_of_alike : c.report.isEmpty = true := by
  rw [DiffReport.isEmpty, Bool.and_eq_true, Dict.isEmpty_eq_true, Dict.isEmpty_eq_true]
  refine ⟨fun key => ?_, fun key => ?_⟩
  · rw [find?_report, Option.or_eq_none_iff, Option.bind_eq_none_iff, Option.bind_eq_none_iff]
    exact ⟨fun w hw => congrArg Outcome.change? (currentOutcome_of_alike h hw),
      fun v hv => desiredChange?_of_alike h hv⟩
  · rw [← Dict.contains_eq_false, ← Bool.not_eq_true, contains_unresolved]
    rintro ⟨w, hw, hunresolved⟩
    rw [currentOutcome_of_alike h hw] at hunresolved
    cases hunresolved

end Comparison

/-- **Configurations that say the same need no changes.** If two configurations have the same keys,
the markers of positions apart, and alike values at each, their comparison has no changes and
misses no default. A configuration with finite numbers compared with itself is a case of this. -/
theorem report_isEmpty_of_alike (defaults : Dict Value) (options : DiffOptions) :
    (∀ desired current : FlatConfig,
        (∀ key, (parse key).isIndexMarker = false →
          Option.Rel Value.Alike (desired.find? key) (current.find? key)) →
        (diff desired current defaults options).isEmpty = true) ∧
      ∀ flat : FlatConfig,
        (∀ key v, (parse key).isIndexMarker = false → flat.find? key = some v →
          v.isRegular = true) →
        (diff flat flat defaults options).isEmpty = true := by
  have halike : ∀ desired current : FlatConfig, (∀ key, (parse key).isIndexMarker = false →
      Option.Rel Value.Alike (desired.find? key) (current.find? key)) →
      (diff desired current defaults options).isEmpty = true := fun desired current h =>
    Comparison.report_of_alike (c := .of desired current defaults options) h
  refine ⟨halike, fun flat hreg => halike flat flat fun key hkey => ?_⟩
  cases hv : flat.find? key with
  | none => exact .none
  | some v =>
    have hv := hreg key v hkey hv
    exact .some (.same hv (Value.same_self v hv))

/-- A desired configuration and what a node answers: a number as its text, a list in another order
and with a repetition, and no positions. -/
theorem report_isEmpty_of_answers :
    let desired : FlatConfig := ⟨[("a", .scalar (.int (-5))), ("b", .list ["x", "y"]),
      ("c.\x7bd\x7d.<index>", indexValue 0)], by decide⟩
    let current : FlatConfig := ⟨[("a", .text "-5"), ("b", .list ["y", "x", "y"])], by decide⟩
    (diff desired current .empty {}).isEmpty = true := by
  intro desired current
  refine (report_isEmpty_of_alike .empty {}).1 desired current fun key hkey => ?_
  change Option.Rel Value.Alike (List.lookup key desired.entries) (List.lookup key current.entries)
  simp only [desired, current, List.lookup_cons]
  cases key == "a" with
  | true => exact .some (.shown (s := .int (-5)) rfl)
  | false =>
    cases key == "b" with
    | true => exact .some (.lists fun x => by grind)
    | false =>
      cases hmarker : key == "c.\x7bd\x7d.<index>" with
      | true =>
        obtain rfl := eq_of_beq hmarker
        exact absurd hkey (by decide)
      | false => exact .none

end Reconfig
