/-!
# Bytes

A byte, and the bytes of a number.
-/

namespace Microcontroller

abbrev Byte := BitVec 8

namespace Byte

/-- The low `count` bytes of `n`, least significant first. -/
def littleEndian : (count n : Nat) → List Byte
  | 0, _ => []
  | count + 1, n => BitVec.ofNat 8 n :: littleEndian count (n / 256)

end Byte

end Microcontroller
