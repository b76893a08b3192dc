import Mathlib.Data.List.Induction
import Mathlib.Data.Nat.Digits.Defs
import Microcontroller.Bits.Field
/-!
# A field of bits as a number

The units of a field are the digits of its value in base 256, the first of them the highest. So the bits
of the field are those of the number, counted from the top; of a field of more than 64 places the value
has the last 64.
-/

namespace Microcontroller.BitField

/-- One more unit at the end of a number. -/
def shiftIn (value : Nat) (unit : Byte) : Nat := (value * 256 + unit.toNat) % 2 ^ 64

theorem value_eq_foldl (f : BitField) : f.value = f.units.toList.foldl shiftIn 0 :=
  (Array.foldl_toList shiftIn).symm

theorem foldl_shiftIn_eq_ofDigits (units : List Byte) :
    units.foldl shiftIn 0 = Nat.ofDigits 256 (units.reverse.map BitVec.toNat) % 2 ^ 64 := by
  induction units using List.reverseRecOn with
  | nil => rfl
  | append_singleton units u ih =>
    rw [List.foldl_append, List.foldl_cons, List.foldl_nil, ih, shiftIn, List.reverse_append,
      List.reverse_singleton, List.singleton_append, List.map_cons, Nat.ofDigits_cons, Nat.add_mod,
      Nat.mod_mul_mod, ← Nat.add_mod, Nat.mul_comm, Nat.add_comm]

/-- The value is the number of which the units are the digits, the first of them the highest. -/
theorem value_eq_ofDigits (f : BitField) :
    f.value = Nat.ofDigits 256 (f.units.toList.reverse.map BitVec.toNat) % 2 ^ 64 := by
  rw [value_eq_foldl, foldl_shiftIn_eq_ofDigits]

theorem testBit_shiftIn (value : Nat) (unit : Byte) (j : Nat) :
    (shiftIn value unit).testBit j =
      (decide (j < 64) && if j < 8 then unit.toNat.testBit j else value.testBit (j - 8)) := by
  rw [shiftIn, Nat.testBit_mod_two_pow, Nat.mul_comm value,
    Nat.testBit_two_pow_mul_add (i := 8) value unit.isLt]

theorem testBit_toNat (unit : Byte) {k : Nat} (hk : k < 8) :
    unit.toNat.testBit (7 - k) = unit.getMsbD k := by
  rw [BitVec.testBit_toNat, BitVec.getMsbD_eq_getLsbD, decide_eq_true hk, Bool.true_and]

theorem testBit_foldl_shiftIn (units : List Byte) {i : Nat} (h : i < 8 * units.length) :
    (units.foldl shiftIn 0).testBit (8 * units.length - 1 - i) =
      (decide (8 * units.length - 1 - i < 64) && (units.getD (i / 8) 0).getMsbD (i % 8)) := by
  induction units using List.reverseRecOn with
  | nil => exact absurd h (Nat.not_lt_zero i)
  | append_singleton units u ih =>
    rw [List.length_append, List.length_singleton] at h ⊢
    rw [List.foldl_append, List.foldl_cons, List.foldl_nil, testBit_shiftIn]
    by_cases hlast : i < 8 * units.length
    · -- A bit of an earlier unit is eight places higher than before.
      have hplace : ¬ 8 * (units.length + 1) - 1 - i < 8 := by omega
      have hshift : 8 * (units.length + 1) - 1 - i - 8 = 8 * units.length - 1 - i := by omega
      have hunit : i / 8 < units.length := by omega
      have hbound : (8 * (units.length + 1) - 1 - i < 64 ∧ 8 * units.length - 1 - i < 64) ↔
          8 * (units.length + 1) - 1 - i < 64 := by omega
      rw [if_neg hplace, hshift, ih hlast, List.getD_eq_getElem?_getD, List.getD_eq_getElem?_getD,
        List.getElem?_append_left hunit, ← Bool.and_assoc, ← Bool.decide_and,
        decide_eq_decide.2 hbound]
    · have hplace : 8 * (units.length + 1) - 1 - i < 8 := by omega
      have hlow : 8 * (units.length + 1) - 1 - i = 7 - i % 8 := by omega
      have hunit : i / 8 = units.length := by omega
      rw [if_pos hplace, hlow, testBit_toNat u (Nat.mod_lt _ (by decide)), hunit,
        List.getD_eq_getElem?_getD, List.getElem?_concat_length, Option.getD_some]

/-- The bits of a field are the bits of its value, the first of them the highest. -/
theorem testBit_value (f : BitField) {i : Nat} (h : i < 8 * f.units.size) :
    f.value.testBit (8 * f.units.size - 1 - i) =
      (decide (8 * f.units.size - 1 - i < 64) && f.bit i) := by
  rw [value_eq_foldl, ← Array.length_toList, testBit_foldl_shiftIn f.units.toList h, bit,
    Array.getD_eq_getD_getElem?, List.getD_eq_getElem?_getD, Array.getElem?_toList]

end Microcontroller.BitField
