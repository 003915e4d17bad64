import Mathlib.Data.List.TakeWhile
import Reconfig.Proofs.ListEdits
import Reconfig.Proofs.Numeral

/-!
# Integers are compared exactly

A configuration holds an integer as a signed word or as an unsigned one, and a running node reports
it as a text. Whatever the two forms are, no digit is lost: the comparison is one of integers, also
where the nearest numbers with a fraction are equal.

* `IsWord`: the integers of signed and of unsigned words;
* `Scalar.Represents`: the forms of an integer;
* `Text.trim_surrounded`: blanks around a text do not count;
* `agrees_iff_of_represents`: two forms agree if and only if the integers are equal;
* **`integer_replaced_iff`**: a report replaces an integer if and only if it differs.
-/

namespace Reconfig

open Reconfig.Path (parse)

/-! ## Blanks around a text -/

namespace Text

theorem trimEnd_append {s after : List Char} (h : ∀ c ∈ after, isBlank c = true) :
    trimEnd (s ++ after) = trimEnd s := by
  rw [trimEnd, List.reverse_append, List.dropWhile_append_of_pos, trimEnd]
  exact fun c hc => h c (List.mem_reverse.1 hc)

theorem trim_surrounded {before s after : List Char} (hbefore : ∀ c ∈ before, isBlank c = true)
    (hafter : ∀ c ∈ after, isBlank c = true) : trim (before ++ s ++ after) = trim s := by
  rw [trim, trim, List.append_assoc, List.dropWhile_append_of_pos hbefore, List.dropWhile_append]
  split
  · rename_i hblank
    rw [List.isEmpty_iff.1 hblank, List.dropWhile_eq_nil_iff.2 hafter]
  · exact trimEnd_append hafter

end Text

/-! ## Forms of an integer -/

/-- A signed or an unsigned word holds the integer. -/
def IsWord (i : Int) : Prop := -(Nat.pow 2 63 : Nat) ≤ i ∧ i < (Nat.pow 2 64 : Nat)

instance (i : Int) : Decidable (IsWord i) := inferInstanceAs (Decidable (_ ∧ _))

/-- The scalar stands for the integer. -/
inductive Scalar.Represents (i : Int) : Scalar → Prop where
  /-- As a signed word. -/
  | signed {x : Int64} (h : x.toInt = i) : Represents i (.int x)
  /-- As an unsigned word. -/
  | unsigned {n : UInt64} (h : (n.toNat : Int) = i) : Represents i (.uint n)
  /-- As its decimal text, with blanks around it. -/
  | text {s : String} {before after : List Char}
    (hbefore : ∀ c ∈ before, Text.isBlank c = true) (hafter : ∀ c ∈ after, Text.isBlank c = true)
    (h : s.toList = before ++ (toString i).toList ++ after) : Represents i (.text s)

namespace Scalar

variable {i j : Int} {a b : Scalar}

theorem Represents.exists_number (ha : a.Represents i) (hi : IsWord i) :
    ∃ n, a.number? = some n ∧ n.integer? = some i := by
  cases ha with
  | signed h => exact ⟨_, rfl, congrArg some h⟩
  | unsigned h => exact ⟨_, rfl, congrArg some h⟩
  | text hbefore hafter h =>
    refine exists_number_of_text hi.1 hi.2 ?_
    rw [h, Text.trim_surrounded hbefore hafter, trim_toString]

theorem agrees_of_numbers {x y : Scalar} (hab : a.text? = none ∨ b.text? = none)
    (ha : a.number? = some x) (hb : b.number? = some y) : a.agrees b = x.sameNumber y := by
  cases a with
  | text s =>
    cases b with
    | text t => exact absurd hab (by simp [text?])
    | bool q => cases hb
    | int _ | uint _ | float _ => simp only [agrees, ha, hb]
  | bool p => cases ha
  | int _ | uint _ | float _ =>
    cases b with
    | bool q => cases hb
    | text _ | int _ | uint _ | float _ => simp only [agrees, ha, hb]

/-- **Two forms agree if and only if the integers are equal.** -/
theorem agrees_iff_of_represents (ha : a.Represents i) (hb : b.Represents j) (hi : IsWord i)
    (hj : IsWord j) (hab : a.text? = none ∨ b.text? = none) : a.agrees b = true ↔ i = j := by
  obtain ⟨x, hx, hxi⟩ := ha.exists_number hi
  obtain ⟨y, hy, hyj⟩ := hb.exists_number hj
  rw [agrees_of_numbers hab hx hy, sameNumber, hxi, hyj]
  exact beq_iff_eq

end Scalar

/-! ## Reports -/

/-- **A report replaces an integer if and only if it differs**, in whatever forms the two sides hold
it, unless both are texts. The forms agree in either order if and only if they stand for the same
integer. -/
theorem integer_replaced_iff {i j : Int} (hi : IsWord i) (hj : IsWord j) {a b : Scalar}
    (ha : a.Represents i) (hb : b.Represents j) (hab : a.text? = none ∨ b.text? = none) :
    (a.agrees b = true ↔ i = j) ∧ (b.agrees a = true ↔ i = j) ∧
      ∀ (desired current : FlatConfig) (defaults : Dict Value) (options : DiffOptions)
        (key : String), desired.find? key = some (.scalar a) →
          current.find? key = some (.scalar b) → isExcluded options (parse key) = false →
            (diff desired current defaults options).changes.find? key =
              if i = j then none else some (.update (.scalar a)) := by
  have hagrees := Scalar.agrees_iff_of_represents ha hb hi hj hab
  have hswapped := Scalar.agrees_iff_of_represents hb ha hj hi hab.symm
  refine ⟨hagrees, hswapped.trans eq_comm, ?_⟩
  intro desired current defaults options key hdesired hcurrent hx
  rw [find?_diff_of_both defaults hdesired hcurrent hx, Value.changeTo?]
  by_cases hij : i = j
  · rw [if_pos (hagrees.2 hij), if_pos hij]
  · rw [if_neg (mt hagrees.1 hij), if_neg hij]

/-- Neighbours that one number with a fraction is nearest to, and the greatest word in a text. -/
theorem integer_replaced_iff_of_neighbours :
    let desired : FlatConfig := .ofList [("service.a", .scalar (.int 9007199254740993)),
      ("service.b", .text "\t18446744073709551615 ")]
    let current : FlatConfig := .ofList [("service.a", .text " 9007199254740992\n"),
      ("service.b", .scalar (.uint 18446744073709551615))]
    (diff desired current .empty {}).changes.find? "service.a" =
        some (.update (.scalar (.int 9007199254740993))) ∧
      (diff desired current .empty {}).changes.find? "service.b" = none := by
  intro desired current
  have hleast : IsWord 9007199254740993 ∧ IsWord 9007199254740992 ∧
      IsWord 18446744073709551615 := by decide
  have htab : ∀ c ∈ ['\t'], Text.isBlank c = true := List.forall_mem_singleton.2 rfl
  have hspace : ∀ c ∈ [' '], Text.isBlank c = true := List.forall_mem_singleton.2 rfl
  have hnewline : ∀ c ∈ ['\n'], Text.isBlank c = true := List.forall_mem_singleton.2 rfl
  have hsigned : (Scalar.int 9007199254740993).Represents 9007199254740993 := .signed (by decide)
  have hline : (Scalar.text " 9007199254740992\n").Represents 9007199254740992 :=
    .text hspace hnewline rfl
  have hblanks : (Scalar.text "\t18446744073709551615 ").Represents 18446744073709551615 :=
    .text htab hspace rfl
  have hunsigned : (Scalar.uint 18446744073709551615).Represents 18446744073709551615 :=
    .unsigned (by decide)
  constructor
  · exact (integer_replaced_iff hleast.1 hleast.2.1 hsigned hline (.inl rfl)).2.2 desired current
      .empty {} "service.a" rfl rfl (by decide)
  · exact (integer_replaced_iff hleast.2.2 hleast.2.2 hblanks hunsigned (.inr rfl)).2.2 desired
      current .empty {} "service.b" rfl rfl (by decide)

end Reconfig
