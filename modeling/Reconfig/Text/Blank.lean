/-!
# Blank characters

The characters with the Unicode property White_Space, and the removal of them from both ends of
a text.

* `isBlank`, `trim`;
* **`trim_eq_self`**: a text that neither starts nor ends with a blank is left as it is.
-/

namespace Reconfig.Text

/-- A character with the Unicode property White_Space. -/
def isBlank (c : Char) : Bool :=
  let n := c.toNat
  (0x09 ≤ n && n ≤ 0x0d) || n == 0x20 || n == 0x85 || n == 0xa0 || n == 0x1680 ||
    (0x2000 ≤ n && n ≤ 0x200a) || n == 0x2028 || n == 0x2029 || n == 0x202f || n == 0x205f ||
    n == 0x3000

theorem isBlank_of_isWhitespace {c : Char} (h : c.isWhitespace = true) : isBlank c = true := by
  simp only [Char.isWhitespace, Bool.or_eq_true, decide_eq_true_eq] at h
  rcases h with ((rfl | rfl) | rfl) | rfl <;> decide

/-- Remove the blanks at the end. -/
def trimEnd (s : List Char) : List Char := (s.reverse.dropWhile isBlank).reverse

/-- Remove the blanks at both ends. -/
def trim (s : List Char) : List Char := trimEnd (s.dropWhile isBlank)

theorem trimEnd_eq_self {s : List Char} (h : ∀ c ∈ s.getLast?, isBlank c = false) :
    trimEnd s = s := by
  unfold trimEnd
  have : s.reverse.dropWhile isBlank = s.reverse := by
    cases hr : s.reverse with
    | nil => rfl
    | cons c rest =>
      have hc : isBlank c = false := h c (by
        rw [List.getLast?_eq_head?_reverse, hr]; rfl)
      simp [hc]
  rw [this, List.reverse_reverse]

/-- **A text that neither starts nor ends with a blank is left as it is.** -/
theorem trim_eq_self {s : List Char} (hs : ∀ c ∈ s.head?, isBlank c = false)
    (he : ∀ c ∈ s.getLast?, isBlank c = false) : trim s = s := by
  have : s.dropWhile isBlank = s := by
    cases s with
    | nil => rfl
    | cons c rest => simp [hs c rfl]
  rw [trim, this, trimEnd_eq_self he]

end Reconfig.Text
