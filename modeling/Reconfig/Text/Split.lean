/-!
# Splitting a text

The pieces of a text between the occurrences of a separator.

* `pieces`: all pieces, at least one; `splitFirst?`: the two parts around the first separator;
* **`intercalate_pieces`**: the pieces joined by the separator are the text;
* `pieces_append`, **`pieces_intercalate`**: texts without the separator are the pieces of their
  join.
-/

namespace Reconfig.Text

/-- The pieces of a text between separators. -/
def pieces (separator : Char) : List Char → List (List Char)
  | [] => [[]]
  | c :: rest =>
    if c = separator then [] :: pieces separator rest
    else
      match pieces separator rest with
      | [] => [[c]]
      | p :: ps => (c :: p) :: ps

/-- The text before the first separator and the text after it. -/
def splitFirst? (separator : Char) (s : List Char) : Option (List Char × List Char) :=
  match s.dropWhile (· != separator) with
  | [] => none
  | _ :: after => some (s.takeWhile (· != separator), after)

theorem pieces_ne_nil (separator : Char) (s : List Char) : pieces separator s ≠ [] := by
  cases s with
  | nil => simp [pieces]
  | cons c rest =>
    rw [pieces]
    split
    · simp
    · split <;> simp

/-- **The pieces joined by the separator are the text.** -/
theorem intercalate_pieces (separator : Char) (s : List Char) :
    List.intercalate [separator] (pieces separator s) = s := by
  induction s with
  | nil => simp [pieces]
  | cons c rest ih =>
    have hne := pieces_ne_nil separator rest
    rw [pieces]
    split
    · rename_i h
      cases hp : pieces separator rest with
      | nil => exact absurd hp hne
      | cons p ps =>
        rw [hp] at ih
        simp [List.intercalate_cons_cons, ih, h]
    · cases hp : pieces separator rest with
      | nil => exact absurd hp hne
      | cons p ps =>
        rw [hp] at ih
        cases ps with
        | nil => simpa using ih
        | cons q qs =>
          rw [List.intercalate_cons_cons] at ih
          simp only [List.intercalate_cons_cons, List.cons_append, List.cons.injEq, true_and]
          exact ih

theorem pieces_of_not_mem {separator : Char} {s : List Char} (h : separator ∉ s) :
    pieces separator s = [s] := by
  induction s with
  | nil => rfl
  | cons c rest ih =>
    rw [List.mem_cons, not_or] at h
    rw [pieces, if_neg (Ne.symm h.1), ih h.2]

/-- A separator divides the pieces before it from those after it. -/
theorem pieces_append (separator : Char) (s t : List Char) :
    pieces separator (s ++ separator :: t) = pieces separator s ++ pieces separator t := by
  induction s with
  | nil => simp [pieces]
  | cons c rest ih =>
    rw [List.cons_append, pieces, pieces, ih]
    split
    · rfl
    · cases hp : pieces separator rest with
      | nil => exact absurd hp (pieces_ne_nil separator rest)
      | cons p ps => rfl

/-- **Texts without the separator are the pieces of their join.** -/
theorem pieces_intercalate {separator : Char} {l : List (List Char)} (hne : l ≠ [])
    (h : ∀ s ∈ l, separator ∉ s) : pieces separator (List.intercalate [separator] l) = l := by
  induction l with
  | nil => exact absurd rfl hne
  | cons s rest ih =>
    have hs := h s List.mem_cons_self
    cases rest with
    | nil => rw [List.intercalate_singleton, pieces_of_not_mem hs]
    | cons t more =>
      rw [List.intercalate_cons_cons, List.append_assoc, List.singleton_append, pieces_append,
        pieces_of_not_mem hs, List.singleton_append,
        ih (List.cons_ne_nil _ _) fun u hu => h u (List.mem_cons_of_mem _ hu)]

end Reconfig.Text
