/-!
# Double-precision numbers

The numbers of the binary64 format, with exact arithmetic on them. The finite ones are whole
multiples of `2 ^ -1074`, called *steps* here, so that every comparison and every rounding is one
of integers.

* `Binary64`, `steps?`, `same` (equality of values), `near` (equality up to rounding), `close`;
* `roundDiv`, `nearest`: rounding of a quotient, a half going to the even neighbour;
* `ofInt`, `mul`, `div`: the rounded operations;
* **`roundDiv_mul`**: a quotient without remainder is not rounded;
* **`near_self`**: a finite number is near itself.
-/

namespace Reconfig

/-- The two fields that write a number in one way only. -/
def Binary64.Canonical (mantissa exponent : Nat) : Prop :=
  mantissa < Nat.pow 2 53 ∧ exponent ≤ 2045 ∧ (exponent = 0 ∨ Nat.pow 2 52 ≤ mantissa)

instance (mantissa exponent : Nat) : Decidable (Binary64.Canonical mantissa exponent) := by
  unfold Binary64.Canonical; infer_instance

/-- A number of the binary64 format. -/
inductive Binary64 where
  /-- The result without a value. -/
  | nan
  /-- An infinity. -/
  | infinite (negative : Bool)
  /-- The magnitude is `mantissa * 2 ^ exponent` steps of `2 ^ -1074`. -/
  | finite (negative : Bool) (mantissa exponent : Nat)
      (canonical : Binary64.Canonical mantissa exponent)
  deriving DecidableEq

namespace Binary64

/-- The zero of a sign. -/
def zero (negative : Bool) : Binary64 := .finite negative 0 0 (by decide)

instance : Inhabited Binary64 := ⟨zero false⟩

/-- A finite number counted in steps of `2 ^ -1074`. -/
def steps? : Binary64 → Option Int
  | .finite negative m e _ =>
    some (if negative then -((m * Nat.pow 2 e : Nat) : Int) else ((m * Nat.pow 2 e : Nat) : Int))
  | _ => none

/-- The steps that make one. -/
def one : Nat := Nat.pow 2 1074

/-- Neither an infinity nor without value. -/
def isFinite (x : Binary64) : Bool := x.steps?.isSome

/-- The number lies below zero, or is the negative zero. -/
def isNegative : Binary64 → Bool
  | .nan => false
  | .infinite negative => negative
  | .finite negative .. => negative

/-- Equality of values: both zeros are equal, and what has no value equals nothing. -/
def same (x y : Binary64) : Bool :=
  match x, y with
  | .infinite a, .infinite b => a == b
  | x, y =>
    match x.steps?, y.steps? with
    | some a, some b => a == b
    | _, _ => false

/-! ## Rounding -/

/-- The quotient rounded to the nearest integer, a half to the even one. -/
def roundDiv (num den : Nat) : Nat :=
  if den < 2 * (num % den) ∨ (2 * (num % den) = den ∧ num / den % 2 = 1) then num / den + 1
  else num / den

/-- **A quotient without remainder is not rounded.** -/
theorem roundDiv_mul (n : Nat) {den : Nat} (h : 0 < den) : roundDiv (n * den) den = n := by
  have h1 : n * den % den = 0 := Nat.mul_mod_left n den
  have h2 : n * den / den = n := Nat.mul_div_cancel n h
  unfold roundDiv
  rw [h1, h2, if_neg]
  omega

/-- The number nearest to `num / den` steps: 53 significant digits, a half to the even one. -/
def nearest (negative : Bool) (num den : Nat) : Binary64 :=
  let e := (num / den).log2 - 52
  let m := roundDiv num (den * Nat.pow 2 e)
  if h : Canonical m e then .finite negative m e h
  else if h : Canonical (m / 2) (e + 1) then .finite negative (m / 2) (e + 1) h
  else .infinite negative

/-- A count of steps rounded to 53 significant digits. -/
def roundSteps (n : Nat) : Nat :=
  let e := n.log2 - 52
  roundDiv n (Nat.pow 2 e) * Nat.pow 2 e

theorem roundSteps_zero : roundSteps 0 = 0 := by decide

/-- The number nearest to an integer. -/
def ofInt (i : Int) : Binary64 := nearest (decide (i < 0)) (i.natAbs * one) 1

/-! ## Operations -/

/-- Equality up to rounding: the rounded difference is at most `2 ^ -52` of the greater magnitude.
An infinity is near every number but itself, as its distance and its magnitude are both
infinite. -/
def near (x y : Binary64) : Bool :=
  match x, y with
  | .nan, _ => false
  | _, .nan => false
  | .infinite a, .infinite b => a != b
  | x, y =>
    match x.steps?, y.steps? with
    | some a, some b =>
      decide (roundSteps (a - b).natAbs ≤ roundDiv (max a.natAbs b.natAbs) (Nat.pow 2 52))
    | _, _ => true

/-- **A finite number is near itself.** -/
theorem near_self {x : Binary64} (h : x.isFinite = true) : near x x = true := by
  cases x with
  | nan => simp [isFinite, steps?] at h
  | infinite a => simp [isFinite, steps?] at h
  | finite negative m e c => simp [near, steps?, roundSteps_zero]

/-- The rounded difference is below `2 ^ -52`. -/
def close (x y : Binary64) : Bool :=
  match x.steps?, y.steps? with
  | some a, some b => decide (roundSteps (a - b).natAbs < one / Nat.pow 2 52)
  | _, _ => false

/-- The rounded product. -/
def mul (x y : Binary64) : Binary64 :=
  match x.steps?, y.steps? with
  | some a, some b => nearest (x.isNegative != y.isNegative) (a.natAbs * b.natAbs) one
  | _, _ => .nan

/-- The rounded quotient by a number other than zero. -/
def div (x y : Binary64) : Binary64 :=
  match x.steps?, y.steps? with
  | some a, some b => nearest (x.isNegative != y.isNegative) (a.natAbs * one) b.natAbs
  | _, _ => .nan

/-- The same magnitude with the given sign. -/
def withSign (negative : Bool) : Binary64 → Binary64
  | .nan => .nan
  | .infinite _ => .infinite negative
  | .finite _ m e h => .finite negative m e h

/-- The number is an integer. -/
def isWhole (x : Binary64) : Bool :=
  match x.steps? with
  | some a => a.natAbs % one == 0
  | none => false

end Binary64

end Reconfig
