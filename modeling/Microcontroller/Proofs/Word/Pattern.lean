import Mathlib.Algebra.Group.Int.Defs
import Mathlib.Algebra.Group.Nat.Defs
import Microcontroller.Word.Width
/-!
# Patterns stay inside their width

Everything that is ever stored in a cell, in the stack pointer or in the instruction pointer went
through `Width.truncate` or `Width.wrap`. This module knows what those two do to a number; the rest
of the theory does not look inside them.
-/

namespace Microcontroller

namespace TwosComplement

theorem natCast_encode (n : Nat) (x : Int) : (encode n x : Int) = x % (2 ^ n : Nat) :=
  Int.toNat_of_nonneg (Int.emod_nonneg x (Int.ofNat_ne_zero.2 (Nat.ne_of_gt (Nat.two_pow_pos n))))

theorem encode_lt (n : Nat) (x : Int) : encode n x < 2 ^ n := by
  have hlt := Int.emod_lt_of_pos x (Int.ofNat_lt.2 (Nat.two_pow_pos n))
  rw [← Int.ofNat_lt, natCast_encode]
  exact hlt

end TwosComplement

namespace Width

theorem bits_pos (w : Width) : 0 < w.bits := by
  cases w <;> decide

theorem capacity_pos (w : Width) : 0 < w.capacity := Nat.two_pow_pos _

theorem byte_lt_capacity (w : Width) (b : BitVec 8) : b.toNat < w.capacity := by
  have hle : 2 ^ 8 ≤ w.capacity := by
    rw [capacity]
    cases w <;> decide
  exact Nat.lt_of_lt_of_le b.isLt hle

/-- Every word is a machine integer. -/
theorem capacity_le (w : Width) : w.capacity ≤ 2 ^ 32 := by
  rw [capacity]
  cases w <;> decide

theorem lt_of_lt_capacity {w : Width} {x : Nat} (h : x < w.capacity) : x < 2 ^ 32 :=
  Nat.lt_of_lt_of_le h w.capacity_le

theorem join_lt {w : Width} {high low : Nat} (hhigh : high < w.capacity) (hlow : low < w.capacity) :
    w.join high low < 2 ^ 64 := by
  calc w.join high low < (high + 1) * w.capacity := by rw [join, Nat.succ_mul]; omega
    _ ≤ 2 ^ 32 * 2 ^ 32 := Nat.mul_le_mul (Nat.le_trans hhigh w.capacity_le) w.capacity_le
    _ = 2 ^ 64 := rfl

theorem ofBits?_eq_some {n : Nat} {w : Width} (h : ofBits? n = some w) : w.bits = n := by
  unfold ofBits? at h
  split at h <;> cases h <;> rfl

@[simp] theorem truncate_lt (w : Width) (r : Nat) : w.truncate r < w.capacity :=
  Nat.mod_lt _ w.capacity_pos

theorem truncate_of_lt {w : Width} {r : Nat} (h : r < w.capacity) : w.truncate r = r :=
  Nat.mod_eq_of_lt h

@[simp] theorem wrap_lt (w : Width) (x : Int) : w.wrap x < w.capacity :=
  TwosComplement.encode_lt w.bits x

theorem natCast_wrap (w : Width) (x : Int) : (w.wrap x : Int) = x % 2 ^ w.bits := by
  rw [wrap, TwosComplement.natCast_encode, Int.natCast_pow]
  rfl

theorem wrap_natCast (w : Width) (n : Nat) : w.wrap n = n % w.capacity := by
  simp only [wrap, TwosComplement.encode, capacity]
  rw [← Int.natCast_emod, Int.toNat_natCast]

end Width

end Microcontroller
