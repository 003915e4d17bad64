import Reconfig.Number.Numeral

/-!
# Bytes as letters

Three bytes are written as four characters out of 64. At the end, one or two equals signs fill up
the characters of the last bytes, and the bits that are left over are zero.

* `sextet?`: the value of a character; **`bytes?`**: the bytes of a text.
-/

namespace Reconfig.Text.Base64

/-- The value of a character, in six bits. -/
def sextet? (c : Char) : Option Nat :=
  if c.isUpper then some (c.toNat - 0x41)
  else if c.isLower then some (c.toNat - 0x61 + 26)
  else if c.isDigit then some (c.toNat - 0x30 + 52)
  else if c = '+' then some 62
  else if c = '/' then some 63
  else none

/-- The number that characters denote, six bits each. -/
def value? (s : List Char) : Option Nat :=
  (s.mapM sextet?).map fun list => list.foldl (fun n d => 64 * n + d) 0

/-- A number as so many bytes. -/
def bytesOf (n : Nat) : Nat → List UInt8
  | 0 => []
  | count + 1 => UInt8.ofNat (n / Nat.pow 256 count) :: bytesOf n count

/-- **The bytes of a text.** -/
def bytes? : List Char → Option (List UInt8)
  | [] => some []
  | [a, b, '=', '='] =>
    (value? [a, b]).bind fun n => if n % 16 = 0 then some (bytesOf (n / 16) 1) else none
  | [a, b, c, '='] =>
    (value? [a, b, c]).bind fun n => if n % 4 = 0 then some (bytesOf (n / 4) 2) else none
  | a :: b :: c :: d :: rest =>
    (value? [a, b, c, d]).bind fun n => (bytes? rest).map fun more => bytesOf n 3 ++ more
  | _ => none

example : bytes? "TWE=".toList = some [0x4d, 0x61] := by decide
example : bytes? "TWF=".toList = none := by decide
example : bytes? "TQ".toList = none := by decide

end Reconfig.Text.Base64
