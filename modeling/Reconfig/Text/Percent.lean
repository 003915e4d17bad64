import Reconfig.Number.Numeral

/-!
# Percent-encoded text

In references a percent sign with two hexadecimal digits stands for a byte of the text's encoding.

* `percentBytes`: the bytes of a percent-encoded text; **`percentDecoded?`**: the text;
* `percentEncoded`: a text with some of its characters encoded;
* **`percentBytes_eq`**: a text without percent signs stands for itself.
-/

namespace Reconfig.Text

/-- The byte of two hexadecimal digits. -/
def byte? (a b : Char) : Option UInt8 :=
  match Numeral.digit? 16 a, Numeral.digit? 16 b with
  | some x, some y => some (UInt8.ofNat (16 * x + y))
  | _, _ => none

/-- The bytes of a percent-encoded text. A percent sign without digits stands for itself. -/
def percentBytes : List Char → List UInt8
  | '%' :: a :: b :: rest =>
    match byte? a b with
    | some x => x :: percentBytes rest
    | none => String.utf8EncodeChar '%' ++ percentBytes (a :: b :: rest)
  | c :: rest => String.utf8EncodeChar c ++ percentBytes rest
  | [] => []

/-- The text of a percent-encoded text, if its bytes encode one. -/
def percentDecoded? (s : List Char) : Option (List Char) :=
  (String.fromUTF8? ⟨(percentBytes s).toArray⟩).map String.toList

/-- The encoding of one byte. -/
def percentByte (b : UInt8) : List Char :=
  ['%', Nat.digitChar (b.toNat / 16) |>.toUpper, Nat.digitChar (b.toNat % 16) |>.toUpper]

/-- A text with its control characters, all characters beyond ASCII and those of a set encoded. -/
def percentEncoded (set : Char → Bool) (s : List Char) : List Char :=
  s.flatMap fun c =>
    if 0x20 ≤ c.toNat ∧ c.toNat < 0x7f ∧ set c = false then [c]
    else (String.utf8EncodeChar c).flatMap percentByte

/-- **A text without percent signs stands for itself.** -/
theorem percentBytes_eq {s : List Char} (h : '%' ∉ s) :
    percentBytes s = s.flatMap String.utf8EncodeChar := by
  induction s with
  | nil => rfl
  | cons c rest ih =>
    rw [List.mem_cons, not_or] at h
    rw [percentBytes, ih h.2, List.flatMap_cons]
    rintro a b more rfl _
    exact absurd rfl h.1

end Reconfig.Text
