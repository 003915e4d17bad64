/-!
# Faults in encoded text

Bytes that encode no text, with the place of the first fault. A character takes one to four bytes;
its first byte tells how many, and limits what the second one may be.

* `Utf8.width`, `Utf8.follows`: the bytes of a character;
* `Utf8.Fault`, `Utf8.Fault.message`; **`Utf8.fault?`**: the first fault.
-/

namespace Reconfig.Utf8

/-- The number of bytes of a character with a given first byte; zero if no character has it. -/
def width (b : UInt8) : Nat :=
  if b < 0x80 then 1
  else if b < 0xc2 then 0
  else if b < 0xe0 then 2
  else if b < 0xf0 then 3
  else if b < 0xf5 then 4
  else 0

/-- A byte that goes on with a character. -/
def goesOn (b : UInt8) : Bool := 0x80 ≤ b && b ≤ 0xbf

/-- The second byte may follow the first one: the number of bytes is the least possible, and the
character is none of the surrogates and not beyond the last one. -/
def follows (first second : UInt8) : Bool :=
  if first = 0xe0 then 0xa0 ≤ second && second ≤ 0xbf
  else if first = 0xed then 0x80 ≤ second && second ≤ 0x9f
  else if first = 0xf0 then 0x90 ≤ second && second ≤ 0xbf
  else if first = 0xf4 then 0x80 ≤ second && second ≤ 0x8f
  else goesOn second

/-- A fault at a position. -/
inductive Fault where
  /-- So many bytes belong to no character. -/
  | invalid (bytes index : Nat)
  /-- The bytes end within a character. -/
  | incomplete (index : Nat)
  deriving DecidableEq, Repr

/-- The wording of a fault. -/
def Fault.message : Fault → String
  | .invalid bytes index =>
    "invalid utf-8 sequence of " ++ toString bytes ++ " bytes from index " ++ toString index
  | .incomplete index => "incomplete utf-8 byte sequence from index " ++ toString index

/-- The fault in the rest of a character, of whose bytes `got` were right; none if it is whole. -/
def restFault? (index got : Nat) : Nat → List UInt8 → Option Fault
  | 0, _ => none
  | _ + 1, [] => some (.incomplete index)
  | more + 1, b :: rest =>
    if goesOn b then restFault? index (got + 1) more rest else some (.invalid got index)

/-- The fault in the character at the front of bytes; none if it is right. -/
def characterFault? (index : Nat) (first : UInt8) (rest : List UInt8) : Option Fault :=
  match width first with
  | 0 => some (.invalid 1 index)
  | 1 => none
  | more + 1 =>
    match rest with
    | [] => some (.incomplete index)
    | second :: rest =>
      if follows first second then restFault? index 2 (more - 1) rest
      else some (.invalid 1 index)

/-- The first fault from a position on, for a bounded number of characters. -/
def faultFrom? : Nat → Nat → List UInt8 → Option Fault
  | 0, _, _ => none
  | _ + 1, _, [] => none
  | bound + 1, index, first :: rest =>
    match characterFault? index first rest with
    | some f => some f
    | none => faultFrom? bound (index + width first) (rest.drop (width first - 1))

/-- **The first fault in bytes.** -/
def fault? (bytes : List UInt8) : Option Fault := faultFrom? bytes.length 0 bytes

example : fault? [0x61, 0xc3] = some (.incomplete 1) := by decide
example : fault? [0xc3, 0xa9, 0x80] = some (.invalid 1 2) := by decide
example : fault? [0xf0, 0x9f, 0x98, 0x80] = none := by decide
example : fault? [0xf0, 0x9f, 0x61] = some (.invalid 2 0) := by decide

end Reconfig.Utf8
