import Mathlib.Algebra.Order.Group.Nat
import Reconfig.Json.Reader
import Reconfig.Proofs.Canonical
import Reconfig.Tree.Text

/-!
# Documents that are read

A number of a JSON text never exceeds the greatest double-precision number: its digits fit a word,
what is multiplied is refused if it exceeds, and what is divided only becomes smaller. Members of
an object are put in a dictionary, so that they are ordered and distinct. So the values of every
tree that is read can be compared, and the tree is written back as it was read.

* `Binary64.IsBelow`, `isBelow_nearest`, `isBelow_div`: bounds of rounded numbers;
* **`proper_literal`**: a number of a text is natural, a negative integer, or finite;
* `PassesUp`, **`PassesUp.of_read`**: what passes from the parts of documents to documents holds of
  every document that is read, by induction over the calls of its readers;
* **`regular_read`**, **`ordered_read`**, **`properNumbers_read`**: such properties;
* `regular_ofJsonText`: the tree of a text is regular.
-/

namespace Reconfig

namespace Binary64

/-! ## Bounds of rounded numbers -/

/-- The number is finite and its magnitude is below a power of two of steps. -/
def IsBelow (x : Binary64) (k : Nat) : Prop := ∃ a, x.steps? = some a ∧ a.natAbs < Nat.pow 2 k

theorem IsBelow.isFinite {x : Binary64} {k : Nat} (h : x.IsBelow k) : x.isFinite = true := by
  obtain ⟨a, ha, -⟩ := h
  rw [Binary64.isFinite, ha]
  rfl

theorem isFinite_withSign {x : Binary64} (negative : Bool) (h : x.isFinite = true) :
    (x.withSign negative).isFinite = true := by
  cases x with
  | nan => cases h
  | infinite a => cases h
  | finite a m e hc => rfl

theorem natAbs_steps (negative : Bool) (m e : Nat) :
    (if negative then -((m * Nat.pow 2 e : Nat) : Int)
      else ((m * Nat.pow 2 e : Nat) : Int)).natAbs = m * 2 ^ e := by
  cases negative
  · exact Int.natAbs_natCast _
  · exact (Int.natAbs_neg _).trans (Int.natAbs_natCast _)

theorem le_roundDiv (num den : Nat) : num / den ≤ roundDiv num den := by
  unfold roundDiv
  split_ifs <;> omega

theorem roundDiv_le (num den : Nat) : roundDiv num den ≤ num / den + 1 := by
  unfold roundDiv
  split_ifs <;> omega

theorem div_pow_bounds (q : Nat) : q / 2 ^ (q.log2 - 52) < 2 ^ 53 ∧
    (q.log2 - 52 = 0 ∨ 2 ^ 52 ≤ q / 2 ^ (q.log2 - 52)) := by
  have hupper := q.lt_log2_self
  rcases Nat.lt_or_ge q.log2 53 with hsmall | hlarge
  · have he : q.log2 - 52 = 0 := by omega
    have hpow : 2 ^ (q.log2 + 1) ≤ 2 ^ 53 := Nat.pow_le_pow_right (by decide) (by omega)
    rw [he, Nat.pow_zero, Nat.div_one]
    exact ⟨by omega, .inl rfl⟩
  · have hne : q ≠ 0 := by
      rintro rfl
      exact absurd hlarge (by decide)
    have hlower := Nat.log2_self_le hne
    have hsplit : ∀ d, 2 ^ (q.log2 - 52 + d) = 2 ^ d * 2 ^ (q.log2 - 52) := fun d => by
      rw [Nat.pow_add, Nat.mul_comm]
    constructor
    · rw [Nat.div_lt_iff_lt_mul (Nat.pow_pos (by decide)), ← hsplit 53]
      exact lt_of_lt_of_eq hupper (congrArg _ (by omega))
    · right
      rw [Nat.le_div_iff_mul_le (Nat.pow_pos (by decide)), ← hsplit 52]
      exact le_of_eq_of_le (congrArg _ (by omega)) hlower

theorem steps_of_digits {m e : Nat} (negative : Bool) (hupper : m ≤ 2 ^ 53)
    (hlower : e = 0 ∨ 2 ^ 52 ≤ m) (he : e ≤ 2044) :
    ∃ s, (if h : Canonical m e then finite negative m e h
      else if h : Canonical (m / 2) (e + 1) then finite negative (m / 2) (e + 1) h
      else infinite negative).steps? = some s ∧ s.natAbs = m * 2 ^ e := by
  by_cases hm : m < 2 ^ 53
  · rw [dif_pos ⟨hm, by omega, hlower⟩]
    exact ⟨_, rfl, natAbs_steps negative m e⟩
  · obtain rfl : m = 2 ^ 53 := by omega
    rw [dif_neg fun h => hm h.1, dif_pos ⟨by decide, by omega, .inr (by decide)⟩]
    have hsucc : 2 ^ (e + 1) = 2 * 2 ^ e := Nat.pow_succ'
    have hhalf : 2 ^ 53 / 2 * 2 = 2 ^ 53 := by decide
    refine ⟨_, rfl, (natAbs_steps negative _ _).trans ?_⟩
    rw [hsucc, ← Nat.mul_assoc, hhalf]

/-- **A quotient below the greatest number is rounded to a finite one** between the powers of two
around it. -/
theorem steps_nearest {num den k : Nat} (negative : Bool) (h : num / den < 2 ^ k)
    (hk : k ≤ 2096) : ∃ s, (nearest negative num den).steps? = some s ∧
      s.natAbs < 2 ^ (k + 1) ∧ (num / den ≠ 0 → 2 ^ (num / den).log2 ≤ s.natAbs) := by
  obtain ⟨hupper, hlower⟩ := div_pow_bounds (num / den)
  have he : (num / den).log2 - 52 ≤ 2044 ∧ 2 ^ ((num / den).log2 - 52) ≤ 2 ^ k := by
    rcases Nat.eq_zero_or_pos (num / den) with hzero | hpos
    · rw [hzero]
      exact ⟨by decide, Nat.one_le_two_pow⟩
    · have hlog := (Nat.log2_lt (Nat.ne_of_gt hpos)).2 h
      exact ⟨by omega, Nat.pow_le_pow_right (by decide) (by omega)⟩
  have hcut : num / (den * Nat.pow 2 ((num / den).log2 - 52)) =
      num / den / 2 ^ ((num / den).log2 - 52) := (Nat.div_div_eq_div_mul ..).symm
  have hlow := le_roundDiv num (den * Nat.pow 2 ((num / den).log2 - 52))
  have hhigh := roundDiv_le num (den * Nat.pow 2 ((num / den).log2 - 52))
  rw [hcut] at hlow hhigh
  obtain ⟨s, hs, hsteps⟩ := steps_of_digits negative (Nat.le_trans hhigh hupper)
    (hlower.imp_right fun hl => hl.trans hlow) he.1
  refine ⟨s, hs, ?_, fun hne => ?_⟩
  · calc s.natAbs
        ≤ (num / den / 2 ^ ((num / den).log2 - 52) + 1) * 2 ^ ((num / den).log2 - 52) :=
          hsteps ▸ Nat.mul_le_mul_right _ hhigh
      _ ≤ num / den + 2 ^ ((num / den).log2 - 52) := by
          rw [Nat.add_mul, Nat.one_mul]
          exact Nat.add_le_add_right (Nat.div_mul_le_self _ _) _
      _ < 2 ^ (k + 1) := by
          rw [Nat.pow_succ]
          omega
  · rw [hsteps]
    rcases hlower with hzero | hlarge
    · rw [hzero, Nat.pow_zero, Nat.div_one] at hlow
      rw [hzero, Nat.pow_zero, Nat.mul_one]
      exact (Nat.log2_self_le hne).trans hlow
    · calc 2 ^ (num / den).log2
          ≤ 2 ^ (52 + ((num / den).log2 - 52)) := Nat.pow_le_pow_right (by decide) (by omega)
        _ = 2 ^ 52 * 2 ^ ((num / den).log2 - 52) := Nat.pow_add 2 52 _
        _ ≤ _ := Nat.mul_le_mul_right _ (hlarge.trans hlow)

theorem isBelow_nearest {num den k : Nat} (negative : Bool) (h : num / den < 2 ^ k)
    (hk : k ≤ 2096) : (nearest negative num den).IsBelow (k + 1) := by
  obtain ⟨s, hs, hlt, -⟩ := steps_nearest negative h hk
  exact ⟨s, hs, hlt⟩

theorem two_pow_le_log2 {k n : Nat} (hn : n ≠ 0) (h : 2 ^ k ≤ n) : 2 ^ k ≤ 2 ^ n.log2 :=
  Nat.pow_le_pow_right (by decide) ((Nat.le_log2 hn).2 h)

theorem one_eq : one = 2 ^ 1074 := by decide +kernel

theorem one_pos : 0 < one := by decide +kernel

theorem isBelow_div {x y : Binary64} {k : Nat} (hx : x.IsBelow k) (hk : k ≤ 2096)
    (hy : ∃ b, y.steps? = some b ∧ one ≤ b.natAbs) : (x.div y).IsBelow (k + 1) := by
  obtain ⟨a, ha, hlt⟩ := hx
  obtain ⟨b, hb, hone⟩ := hy
  rw [div, ha, hb]
  refine isBelow_nearest _ (lt_of_le_of_lt ?_ hlt) hk
  calc a.natAbs * one / b.natAbs ≤ a.natAbs * b.natAbs / b.natAbs :=
        Nat.div_le_div_right (Nat.mul_le_mul_left _ hone)
    _ = a.natAbs := Nat.mul_div_cancel _ (Nat.lt_of_lt_of_le one_pos hone)

theorem mul_one_lt {n k : Nat} (h : n < 2 ^ k) : n * one < 2 ^ (k + 1074) := by
  calc n * one < 2 ^ k * one := Nat.mul_lt_mul_of_pos_right h one_pos
    _ = 2 ^ k * 2 ^ 1074 := by rw [one_eq]
    _ = 2 ^ (k + 1074) := (pow_add 2 k 1074).symm

theorem isBelow_ofInt {n k : Nat} (h : n < 2 ^ k) (hk : k + 1074 ≤ 2096) :
    (ofInt n).IsBelow (k + 1074 + 1) := by
  refine isBelow_nearest _ ?_ hk
  rw [Nat.div_one, Int.natAbs_natCast]
  exact mul_one_lt h

theorem one_le_nearest {n k : Nat} (hn : 0 < n) (h : n < 2 ^ k) (hk : k + 1074 ≤ 2096) :
    ∃ s, (nearest false (n * one) 1).steps? = some s ∧ one ≤ s.natAbs := by
  have hle : one ≤ n * one := Nat.le_mul_of_pos_left one hn
  have hne : n * one ≠ 0 := Nat.ne_of_gt (Nat.lt_of_lt_of_le one_pos hle)
  have hlt : n * one / 1 < 2 ^ (k + 1074) := by
    rw [Nat.div_one]
    exact mul_one_lt h
  obtain ⟨s, hs, -, hlower⟩ := steps_nearest false hlt hk
  rw [Nat.div_one] at hlower
  refine ⟨s, hs, le_trans ?_ (hlower hne)⟩
  exact one_eq.trans_le (two_pow_le_log2 hne (one_eq.ge.trans hle))

end Binary64

namespace Json.Number

open Binary64 (IsBelow)

/-! ## Numbers of a text -/

theorem powerOfTen_ge_one {k : Nat} (h : k ≤ 308) :
    ∃ b, (powerOfTen k).steps? = some b ∧ Binary64.one ≤ b.natAbs := by
  rcases Nat.lt_or_ge k 308 with hk | hk
  · have hlt : 10 ^ k < 2 ^ 1020 := by
      refine lt_of_le_of_lt (Nat.pow_le_pow_right (by decide) (Nat.le_of_lt_succ hk)) ?_
      decide +kernel
    exact Binary64.one_le_nearest (Nat.pow_pos (by decide)) hlt (by decide)
  · -- the greatest of them is above the bound of the general lemma
    obtain rfl : k = 308 := by omega
    have hlast : ((powerOfTen 308).steps?.any fun b =>
        decide (Binary64.one ≤ b.natAbs)) = true := by decide +kernel
    obtain ⟨b, hb, hle⟩ := (Option.any_eq_true _ _).1 hlast
    exact ⟨b, hb, of_decide_eq_true hle⟩

theorem isProper_real (x : Binary64) : (Number.real x).isProper = x.isFinite := rfl

theorem isFinite_of_isProper {n : Number} (h : n.isProper = true) :
    (Scalar.ofNumber n).isFinite = true := by
  cases n with
  | natural n | negative i => rfl
  | real x => exact h

theorem isBelow_scaledDown {x : Binary64} {k : Nat} (hx : x.IsBelow k) (hk : k ≤ 2095) (n : Nat) :
    (scaledDown x n).isFinite = true := by
  unfold scaledDown
  split_ifs with hone htwo
  · exact (Binary64.isBelow_div hx (by omega) (powerOfTen_ge_one hone)).isFinite
  · have hfirst := Binary64.isBelow_div hx (by omega) (powerOfTen_ge_one (Nat.le_refl 308))
    exact (Binary64.isBelow_div hfirst (by omega) (powerOfTen_ge_one (by omega))).isFinite
  · rfl

theorem proper_scaled {minus : Bool} {digits : Nat} {exponent : Int} {n : Number}
    (hdigits : digits < 2 ^ 64) (h : scaled? minus digits exponent = some n) :
    n.isProper = true := by
  have hx := Binary64.isBelow_ofInt hdigits (by decide)
  unfold scaled? at h
  simp only at h
  split_ifs at h with hzero
  · cases h
    rfl
  · cases exponent with
    | ofNat k =>
      simp only at h
      split_ifs at h with hlarge hfinite
      cases h
      rw [isProper_real]
      exact Binary64.isFinite_withSign minus hfinite
    | negSucc k =>
      cases h
      rw [isProper_real]
      exact Binary64.isFinite_withSign minus (isBelow_scaledDown hx (by decide) _)

theorem takeDigits_lt {n taken : Nat} {s : List Char} (h : n < 2 ^ 64) :
    (takeDigits n taken s).1 < 2 ^ 64 := by
  induction s generalizing n taken with
  | nil => exact h
  | cons c rest ih =>
    rw [takeDigits]
    split
    · split_ifs with hlt
      · exact ih hlt
      · exact h
    · exact h

theorem proper_integer {minus : Bool} {digits : Nat} (h : digits < 2 ^ 64) :
    (integer minus digits).isProper = true := by
  unfold integer
  split_ifs with hminus hreal
  · rw [isProper_real]
    exact Binary64.isFinite_withSign true (Binary64.isBelow_ofInt h (by decide)).isFinite
  · obtain ⟨hne, hle⟩ := not_or.1 hreal
    have hpow : Nat.pow 2 63 = 9223372036854775808 := rfl
    have hvalue : (Int64.ofInt (-(digits : Int))).toInt = -(digits : Int) :=
      Int64.toInt_ofInt_of_le (by omega) (by omega)
    rw [isProper, hvalue, decide_eq_true_eq]
    omega
  · rfl

theorem proper_exponential {minus : Bool} {digits : Nat} {exponent : Int} {s rest : List Char}
    {n : Number} (hdigits : digits < 2 ^ 64)
    (h : exponential? minus digits exponent s = some (n, rest)) : n.isProper = true := by
  have hplain : (scaled? minus digits exponent).map (·, s) = some (n, rest) →
      n.isProper = true := by
    intro hscaled
    obtain ⟨x, hx, heq⟩ := Option.map_eq_some_iff.1 hscaled
    cases heq
    exact proper_scaled hdigits hx
  cases s with
  | nil => exact hplain h
  | cons c more =>
    rw [exponential?] at h
    split_ifs at h with hletter
    · obtain ⟨⟨e, after⟩, -, h⟩ := Option.bind_eq_some_iff.1 h
      obtain ⟨x, hx, h⟩ := Option.bind_eq_some_iff.1 h
      cases h
      exact proper_scaled hdigits hx
    · exact hplain h

theorem proper_fractional {minus : Bool} {digits : Nat} {exponent : Int} {s rest : List Char}
    {n : Number} (hdigits : digits < 2 ^ 64)
    (h : fractional? minus digits exponent s = some (n, rest)) : n.isProper = true := by
  unfold fractional? at h
  cases htaken : takeDigits digits 0 s with
  | mk d more =>
    obtain ⟨taken, after⟩ := more
    rw [htaken] at h
    simp only at h
    split_ifs at h
    refine proper_exponential ?_ h
    have hd := @takeDigits_lt digits 0 s hdigits
    rwa [htaken] at hd

theorem proper_magnitude {minus : Bool} {s rest : List Char} {n : Number}
    (h : magnitude? minus s = some (n, rest)) : n.isProper = true := by
  cases s with
  | nil => cases h
  | cons c more =>
    unfold magnitude? at h
    simp only at h
    split_ifs at h
    cases htaken : takeDigits 0 0 (c :: more) with
    | mk d after =>
      have hd := @takeDigits_lt 0 0 (c :: more) (by decide)
      rw [htaken] at hd h
      simp only at hd h
      split at h
      · exact proper_fractional hd h
      · split_ifs at h
        · cases h
          exact proper_integer hd
        · exact proper_exponential hd h

/-- **A number of a text is natural, a negative integer, or finite.** -/
theorem proper_literal {s rest : List Char} {n : Number} (h : literal? s = some (n, rest)) :
    n.isProper = true := by
  unfold literal? at h
  split at h
  · exact proper_magnitude h
  · exact proper_magnitude h

end Json.Number

namespace Json

/-! ## Documents of a text -/

/-- The property holds of simple values and passes from the items to an array, and from the values
of a dictionary to its object. -/
structure PassesUp (P : Json → Prop) : Prop where
  null : P .null
  bool : ∀ b, P (.bool b)
  number : ∀ n : Number, n.isProper = true → P (.number n)
  string : ∀ t, P (.string t)
  array : ∀ items, (∀ j ∈ items, P j) → P (.array items)
  object : ∀ d : Dict Json, (∀ name j, d.find? name = some j → P j) → P (.ofDict d)

/-- What the three readers return within a bound on their calls. -/
structure ReadsOnly (P : Json → Prop) (bound : Nat) : Prop where
  value : ∀ depth s j rest, value? bound depth s = some (j, rest) → P j
  items : ∀ depth before s j rest, (∀ i ∈ before, P i) →
    items? bound depth before s = some (j, rest) → P j
  members : ∀ depth before s j rest, (∀ name i, before.find? name = some i → P i) →
    members? bound depth before s = some (j, rest) → P j

section PassesUp

variable {P : Json → Prop} (hP : PassesUp P)

include hP

theorem PassesUp.of_plain {s rest : List Char} {j : Json} (h : plain? s = some (j, rest)) :
    P j := by
  unfold plain? at h
  split at h
  · obtain ⟨_, -, heq⟩ := Option.map_eq_some_iff.1 h
    cases heq
    exact hP.string _
  · obtain ⟨_, -, heq⟩ := Option.map_eq_some_iff.1 h
    cases heq
    exact hP.null
  · obtain ⟨_, -, heq⟩ := Option.map_eq_some_iff.1 h
    cases heq
    exact hP.bool true
  · obtain ⟨_, -, heq⟩ := Option.map_eq_some_iff.1 h
    cases heq
    exact hP.bool false
  · obtain ⟨⟨n, after⟩, hn, heq⟩ := Option.map_eq_some_iff.1 h
    cases heq
    exact hP.number n (Number.proper_literal hn)

/-- Each reader calls the others with a smaller bound, so one induction carries all three. -/
theorem PassesUp.readsOnly (bound : Nat) : ReadsOnly P bound := by
  induction bound with
  | zero =>
    refine ⟨fun _ _ _ _ h => ?_, fun _ _ _ _ _ _ h => ?_, fun _ _ _ _ _ _ h => ?_⟩ <;> cases h
  | succ bound ih =>
    constructor
    case value =>
      intro depth s j rest h
      rw [value?] at h
      split at h
      · split_ifs at h
        split at h
        · cases h
          exact hP.array [] fun i hi => nomatch hi
        · exact ih.items _ [] _ _ _ (fun i hi => nomatch hi) h
      · split_ifs at h
        split at h
        · cases h
          exact hP.object ∅ fun name i hi => nomatch hi
        · exact ih.members _ ∅ _ _ _ (fun name i hi => nomatch hi) h
      · exact hP.of_plain h
    case items =>
      intro depth before s j rest hbefore h
      rw [items?] at h
      cases hv : value? bound depth s with
      | none => simp [hv] at h
      | some read =>
        obtain ⟨i, after⟩ := read
        have hi := ih.value _ _ _ _ hv
        have hall : ∀ k ∈ i :: before, P k := by
          intro k hk
          rcases List.mem_cons.1 hk with rfl | hk
          · exact hi
          · exact hbefore k hk
        rw [hv] at h
        simp only at h
        split at h
        · exact ih.items _ _ _ _ _ hall h
        · cases h
          exact hP.array _ fun k hk => hall k (List.mem_reverse.1 hk)
        · cases h
    case members =>
      intro depth before s j rest hbefore h
      rw [members?] at h
      split at h
      · split at h
        · cases h
        · rename_i name after hname
          split at h
          · rename_i after' hafter
            cases hv : value? bound depth after' with
            | none => simp [hv] at h
            | some read =>
              obtain ⟨i, last⟩ := read
              have hi := ih.value _ _ _ _ hv
              have hall : ∀ other k, (before.insert name i).find? other = some k → P k := by
                intro other k hk
                rw [Dict.find?_insert] at hk
                split_ifs at hk
                · cases hk
                  exact hi
                · exact hbefore other k hk
              rw [hv] at h
              simp only at h
              split at h
              · exact ih.members _ _ _ _ _ hall h
              · cases h
                exact hP.object _ hall
              · cases h
          · cases h
      · cases h

/-- **What passes from the parts of documents to documents** holds of every document that is
read. -/
theorem PassesUp.of_read {text : String} {j : Json} (h : read? text = some j) : P j := by
  unfold read? readWithin? at h
  simp only at h
  split at h
  · rename_i i rest hread
    obtain ⟨-, heq⟩ := Option.ite_none_right_eq_some.1 h
    cases heq
    exact (hP.readsOnly _).value _ _ _ _ hread
  · cases h

end PassesUp

theorem itemsRegular_iff {items : List Json} :
    itemsRegular items = true ↔ ∀ j ∈ items, j.isRegular = true :=
  check_iff_forall rfl fun _ _ => Bool.and_eq_true_iff

theorem regular_ofDict {d : Dict Json}
    (h : ∀ name j, d.find? name = some j → j.isRegular = true) : (ofDict d).isRegular = true := by
  have hmembers : ∀ l : List (String × Json), l.Pairwise (fun a b => a.1 ≠ b.1) →
      (∀ m ∈ l, m.2.isRegular = true) → membersRegular l = true := by
    intro l hl hvalues
    induction l with
    | nil => rfl
    | cons m rest ih =>
      obtain ⟨name, j⟩ := m
      rw [List.pairwise_cons] at hl
      have hnew : rest.lookup name = none :=
        Dict.lookup_eq_none_of_not_mem fun e he => (hl.1 e he).symm
      rw [membersRegular, hnew, hvalues _ List.mem_cons_self,
        ih hl.2 fun e he => hvalues e (List.mem_cons_of_mem _ he)]
      rfl
  exact hmembers d.entries d.entries_distinct fun m hm => h m.1 m.2 (Dict.mem_entries.1 hm)

theorem regular_read {text : String} {j : Json} (h : read? text = some j) : j.isRegular = true := by
  have hpasses : PassesUp fun j => j.isRegular = true :=
    { null := rfl
      bool := fun _ => rfl
      number := fun _ => Number.isFinite_of_isProper
      string := fun _ => rfl
      array := fun _ => itemsRegular_iff.2
      object := fun _ => regular_ofDict }
  exact hpasses.of_read h

theorem orderedItems_iff {items : List Json} : OrderedItems items ↔ ∀ j ∈ items, j.Ordered := by
  induction items with
  | nil => simp [OrderedItems]
  | cons j rest ih => simp [OrderedItems, ih]

theorem orderedMembers_iff {members : List (String × Json)} :
    OrderedMembers members ↔ ∀ m ∈ members, m.2.Ordered := by
  induction members with
  | nil => simp [OrderedMembers]
  | cons m rest ih => simp [OrderedMembers, ih]

theorem ordered_read {text : String} {j : Json} (h : read? text = some j) : j.Ordered := by
  have hpasses : PassesUp Ordered :=
    { null := trivial
      bool := fun _ => trivial
      number := fun _ _ => trivial
      string := fun _ => trivial
      array := fun _ => orderedItems_iff.2
      object := fun d hd => ⟨d.ordered, orderedMembers_iff.2 fun m hm =>
        hd m.1 m.2 (Dict.mem_entries.1 hm)⟩ }
  exact hpasses.of_read h

theorem itemsProper_iff {items : List Json} :
    itemsProper items = true ↔ ∀ j ∈ items, j.hasProperNumbers = true :=
  check_iff_forall rfl fun _ _ => Bool.and_eq_true_iff

theorem membersProper_iff {members : List (String × Json)} :
    membersProper members = true ↔ ∀ m ∈ members, m.2.hasProperNumbers = true :=
  check_iff_forall rfl fun _ _ => Bool.and_eq_true_iff

theorem properNumbers_read {text : String} {j : Json} (h : read? text = some j) :
    j.hasProperNumbers = true := by
  have hpasses : PassesUp fun j => j.hasProperNumbers = true :=
    { null := rfl
      bool := fun _ => rfl
      number := fun _ hn => hn
      string := fun _ => rfl
      array := fun _ => itemsProper_iff.2
      object := fun _ hd => membersProper_iff.2 fun m hm => hd m.1 m.2 (Dict.mem_entries.1 hm) }
  exact hpasses.of_read h

end Json

/-- **The tree of a text is regular.** -/
theorem regular_ofJsonText {text : String} {t : Tree} (h : Tree.ofJsonText text = .ok t) :
    fieldsRegular t = true := by
  unfold Tree.ofJsonText at h
  split at h
  · rename_i j hread
    exact regular_ofJson (Json.regular_read hread) h
  · cases h

end Reconfig
