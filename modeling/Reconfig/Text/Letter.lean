/-!
# Letters and numbers

The characters that are letters, and those that are numbers, up to the last Latin letter with an
accent. Behind it whole blocks count as letters, whatever else stands in them.

* `letterRanges`, `numberRanges`; **`isAlphanumeric`**.
-/

namespace Reconfig.Text

/-- The ranges of letters: single ones in the first two blocks, then blocks. -/
def letterRanges : List (Nat × Nat) :=
  [(0x41, 0x5a), (0x61, 0x7a), (0xaa, 0xaa), (0xb5, 0xb5), (0xba, 0xba), (0xc0, 0xd6), (0xd8, 0xf6),
   (0xf8, 0x2c1), (0x370, 0x374), (0x376, 0x37d), (0x37f, 0x37f), (0x386, 0x386), (0x388, 0x481),
   (0x48a, 0x559), (0x560, 0x588), (0x5d0, 0x5f2), (0x620, 0x669), (0x66e, 0x6d3), (0x6d5, 0x6dc),
   (0x6e1, 0x6fc), (0x710, 0x1fff), (0x2c00, 0x2cff), (0x2d00, 0x2dff), (0x3005, 0x3007),
   (0x3021, 0x3029), (0x3031, 0x3035), (0x3041, 0x3096), (0x309d, 0x309f), (0x30a1, 0x30fa),
   (0x30fc, 0x318e), (0x31a0, 0x31bf), (0x31f0, 0x31ff), (0x3400, 0x4dbf), (0x4e00, 0xa48c),
   (0xa4d0, 0xd7a3), (0xf900, 0xfdcf), (0xfdf0, 0xfdfb), (0xfe70, 0xfefc), (0xff21, 0xff3a),
   (0xff41, 0xff5a), (0xff66, 0xffdc), (0x10000, 0x1efff), (0x20000, 0x323af)]

/-- The ranges of numbers outside those blocks. -/
def numberRanges : List (Nat × Nat) :=
  [(0x30, 0x39), (0xb2, 0xb3), (0xb9, 0xb9), (0xbc, 0xbe), (0x2070, 0x2070), (0x2074, 0x2079),
   (0x2080, 0x2089), (0x2150, 0x2189), (0x2460, 0x249b), (0xff10, 0xff19)]

/-- A letter or a number. -/
def isAlphanumeric (c : Char) : Bool :=
  (letterRanges ++ numberRanges).any fun r => r.1 ≤ c.toNat && c.toNat ≤ r.2

end Reconfig.Text
