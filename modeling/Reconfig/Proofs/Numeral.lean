import Mathlib.Tactic.Core
import Reconfig.Diff.Compare

/-!
# Integers and their texts

The text of an integer is read back as that integer, be it within a signed or an unsigned word, and
whatever blanks stand around it.

* `digitsFrom?_of_digits`, `natural?_toDigits`: runs of digits;
* `unsigned?_repr`, `signed?_repr`: the text of a word;
* **`exists_number_of_text`**: the number that the text of an integer denotes.
-/

namespace Reconfig

namespace Numeral

theorem toNat_of_isDigit {c : Char} (h : c.isDigit = true) : 48 ≤ c.toNat ∧ c.toNat ≤ 57 := by
  simp only [Char.isDigit, Bool.and_eq_true, decide_eq_true_eq] at h
  exact h

theorem digit?_of_isDigit {c : Char} (h : c.isDigit = true) :
    digit? 10 c = some (c.toNat - '0'.toNat) := by
  have hc := toNat_of_isDigit h
  have hvalue : c.toNat - 48 < 10 := by omega
  rw [digit?]
  simp only [if_pos hc, if_pos hvalue]
  rfl

theorem digitsFrom?_of_digits {s : List Char} (hs : ∀ c ∈ s, c.isDigit = true) (n : Nat) :
    digitsFrom? 10 n s = some (Nat.ofDigitChars 10 s n) := by
  induction s generalizing n with
  | nil => rfl
  | cons c rest ih =>
    rw [digitsFrom?, digit?_of_isDigit (hs c List.mem_cons_self), Option.bind_some,
      ih fun d hd => hs d (List.mem_cons_of_mem _ hd), Nat.mul_comm n 10]
    rfl

theorem isDigit_of_mem_toDigits {n : Nat} {c : Char} (h : c ∈ Nat.toDigits 10 n) :
    c.isDigit = true := Nat.isDigit_of_mem_toDigits (by decide) (by decide) h

/-- **The digits of a natural number are read back.** -/
theorem natural?_toDigits (n : Nat) : natural? 10 (Nat.toDigits 10 n) = some n := by
  have hread := digitsFrom?_of_digits (fun c hc => isDigit_of_mem_toDigits (n := n) hc) 0
  rw [Nat.ofDigitChars_toDigits (by decide) (by decide)] at hread
  cases hdigits : Nat.toDigits 10 n with
  | nil => exact absurd hdigits Nat.toDigits_ne_nil
  | cons c rest =>
    rw [hdigits] at hread
    exact hread

theorem dropPlus_of_isDigit {s : List Char} (hs : ∀ c ∈ s, c.isDigit = true) : dropPlus s = s := by
  unfold dropPlus
  split
  · exact absurd (hs '+' List.mem_cons_self) (by decide)
  · rfl

theorem unsigned?_repr {n : Nat} (h : n < Nat.pow 2 64) :
    unsigned? n.repr.toList = some (UInt64.ofNat n) := by
  rw [unsigned?, Nat.toList_repr, dropPlus_of_isDigit fun c => isDigit_of_mem_toDigits,
    natural?_toDigits, Option.bind_some, word?, if_pos h]

theorem unsigned?_minus (s : List Char) : unsigned? ('-' :: s) = none := by
  have hdigit : digit? 10 '-' = none := by decide
  rw [unsigned?, dropPlus]
  · rw [natural?, digitsFrom?, hdigit]
    rfl
  · simp

theorem signed?_minus_repr {n : Nat} (h : n ≤ Nat.pow 2 63) :
    signed? ('-' :: n.repr.toList) = some (Int64.ofInt (-n)) := by
  have hpos : 0 < Nat.pow 2 63 := by decide
  have hword : signedWord? (-n) = some (Int64.ofInt (-n)) := if_pos ⟨by omega, by omega⟩
  rw [signed?, integer?, Nat.toList_repr, natural?_toDigits]
  exact hword

end Numeral

/-! ## Numbers of texts -/

theorem Text.isBlank_of_isDigit {c : Char} (h : c.isDigit = true) : isBlank c = false := by
  have hc := Numeral.toNat_of_isDigit h
  simp only [isBlank, Bool.or_eq_false_iff, Bool.and_eq_false_iff, decide_eq_false_iff_not,
    beq_eq_false_iff_ne]
  omega

theorem toList_toString (i : Int) :
    (toString i).toList = if 0 ≤ i then i.toNat.repr.toList else '-' :: (-i).toNat.repr.toList := by
  rw [Int.toString_eq_repr, Int.repr_eq_if]
  split
  · rfl
  · rw [String.toList_append]
    rfl

theorem trim_toString (i : Int) : Text.trim (toString i).toList = (toString i).toList := by
  have hplain : ∀ c ∈ (toString i).toList, Text.isBlank c = false := by
    have hdigits : ∀ (n : Nat), ∀ c ∈ n.repr.toList, Text.isBlank c = false := by
      intro n c hc
      rw [Nat.toList_repr] at hc
      exact Text.isBlank_of_isDigit (Numeral.isDigit_of_mem_toDigits hc)
    rw [toList_toString]
    split
    · exact hdigits _
    · intro c hc
      rcases List.mem_cons.1 hc with rfl | hc
      · decide
      · exact hdigits _ c hc
  exact Text.trim_eq_self (fun c hc => hplain c (List.mem_of_head? hc))
    fun c hc => hplain c (List.mem_of_getLast? hc)

/-- **The text of an integer denotes that integer**, whatever blanks stand around it, if the integer
fits a signed or an unsigned word. -/
theorem exists_number_of_text {i : Int} (hlower : -(Nat.pow 2 63 : Nat) ≤ i)
    (hupper : i < (Nat.pow 2 64 : Nat)) {text : String}
    (htext : Text.trim text.toList = (toString i).toList) :
    ∃ n, numberOfText? text = some n ∧ n.integer? = some i := by
  rw [numberOfText?, htext, toList_toString]
  by_cases hi : 0 ≤ i
  · have hword : i.toNat < Nat.pow 2 64 := by omega
    rw [if_pos hi, Numeral.unsigned?_repr hword]
    refine ⟨_, rfl, ?_⟩
    rw [Scalar.integer?, UInt64.toNat_ofNat_of_lt' hword, Int.toNat_of_nonneg hi]
  · have hword : (-i).toNat ≤ Nat.pow 2 63 := by omega
    rw [if_neg hi, Numeral.unsigned?_minus, Numeral.signed?_minus_repr hword]
    refine ⟨_, rfl, ?_⟩
    have hnegative : (((-i).toNat : Nat) : Int) = -i := Int.toNat_of_nonneg (by omega)
    have hbelow : i < (Nat.pow 2 63 : Nat) := by omega
    rw [Scalar.integer?, hnegative, Int.neg_neg, Int64.toInt_ofInt_of_le hlower hbelow]

end Reconfig
