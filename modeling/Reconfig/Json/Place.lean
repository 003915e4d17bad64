import Reconfig.Json.Basic
import Reconfig.Number.Numeral
import Reconfig.Text.Split

/-!
# Places in a JSON document

A place is written as the names and the positions on the way to it, each behind a slash. A tilde
and a slash in a name are written `~0` and `~1`.

* `Place.field`, `Place.item`: the places below a place;
* `Place.steps?`: the steps on the way to a place; **`Json.at?`**: the value there;
* **`unescaped_escaped`**: a name is read back as it was written.
-/

namespace Reconfig

namespace Place

/-- A character of a name on the way to a place. -/
def escaped (c : Char) : List Char :=
  if c = '~' then ['~', '0'] else if c = '/' then ['~', '1'] else [c]

/-- The place of a field. -/
def field (path name : String) : String :=
  path ++ String.ofList ('/' :: name.toList.flatMap escaped)

/-- The place of an item. -/
def item (path : String) (position : Nat) : String := path ++ "/" ++ toString position

/-- The name that a step on the way to a place denotes. -/
def unescaped : List Char → List Char
  | '~' :: '0' :: rest => '~' :: unescaped rest
  | '~' :: '1' :: rest => '/' :: unescaped rest
  | c :: rest => c :: unescaped rest
  | [] => []

/-- **A name is read back as it was written.** -/
theorem unescaped_escaped (name : List Char) : unescaped (name.flatMap escaped) = name := by
  induction name with
  | nil => rfl
  | cons c rest ih =>
    rw [List.flatMap_cons, escaped]
    split
    · rename_i h
      simp [unescaped, ih, h]
    · split
      · rename_i h
        simp [unescaped, ih, h]
      · rename_i h _
        simp only [List.cons_append, List.nil_append]
        rw [unescaped]
        · rw [ih]
        · rintro more rfl
          exact absurd rfl h
        · rintro more rfl
          exact absurd rfl h

/-- The position of an item that a step denotes: decimal digits, the first of several not zero. -/
def position? (step : List Char) : Option Nat :=
  if step.head? = some '+' ∨ (step.head? = some '0' ∧ step.length ≠ 1) then none
  else (Numeral.unsigned? step).map UInt64.toNat

/-- The steps on the way to a place. -/
def steps? : List Char → Option (List (List Char))
  | [] => some []
  | '/' :: rest => some ((Text.pieces '/' rest).map unescaped)
  | _ => none

end Place

namespace Json

/-- The value one step below a value. -/
def below? (j : Json) (step : List Char) : Option Json :=
  match j with
  | .object members => members.lookup (String.ofList step)
  | .array items => (Place.position? step).bind fun n => items[n]?
  | _ => none

/-- The value at the end of a way. -/
def at? (j : Json) (steps : List (List Char)) : Option Json := steps.foldlM below? j

/-- The values on the way to a place, without the last one. -/
def above (j : Json) : List (List Char) → List Json
  | [] => []
  | step :: rest => j :: (match j.below? step with
    | some k => k.above rest
    | none => [])

end Json

end Reconfig
