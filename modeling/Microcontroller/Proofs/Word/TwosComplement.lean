import Microcontroller.Proofs.Chip.Meaning
import Microcontroller.Proofs.Word.Pattern
/-!
# Two's complement

What a pattern is decoded to: the integer that its lowest bits stand for, which lies in their range.
Whatever was encoded in that many bits, and lies in their range, is decoded to itself; and of a
pattern that is decoded and encoded again its lowest bits are left.
-/

namespace Microcontroller.TwosComplement

variable {n : Nat}

theorem two_pow_eq_double (hn : 0 < n) : 2 ^ n = 2 * 2 ^ (n - 1) := by
  rw [← Nat.pow_succ', Nat.succ_eq_add_one, Nat.sub_add_cancel hn]

theorem decode_eq_signed (hn : 0 < n) (r : Nat) : decode n r = Meaning.signed n (r % 2 ^ n) := by
  have hdouble := two_pow_eq_double hn
  have hhalf : ((2 ^ n : Nat) + 1 : Int) / 2 = (2 ^ (n - 1) : Nat) := by omega
  rw [decode, Int.bmod_def, hhalf, Meaning.signed, ← Int.natCast_emod]
  by_cases hlow : r % 2 ^ n < 2 ^ (n - 1)
  · rw [if_pos (Int.ofNat_lt.2 hlow), if_pos hlow]
  · rw [if_neg fun h => hlow (Int.ofNat_lt.1 h), if_neg hlow, Int.natCast_pow]
    rfl

theorem decode_encode (hn : 0 < n) {x : Int} (hlow : -2 ^ (n - 1) ≤ x) (hhigh : x < 2 ^ (n - 1)) :
    decode n (encode n x) = x := by
  have hdouble := two_pow_eq_double hn
  have hcast : ((2 ^ (n - 1) : Nat) : Int) = 2 ^ (n - 1) := Int.natCast_pow 2 (n - 1)
  rw [decode, natCast_encode, Int.emod_bmod]
  exact Int.bmod_eq_of_le (by omega) (by omega)

theorem encode_decode (n r : Nat) : encode n (decode n r) = r % 2 ^ n := by
  rw [encode, decode, Int.bmod_emod, ← Int.natCast_emod, Int.toNat_natCast]

theorem decode_range (hn : 0 < n) (r : Nat) :
    -2 ^ (n - 1) ≤ decode n r ∧ decode n r < 2 ^ (n - 1) := by
  have hdouble := two_pow_eq_double hn
  have hcast : ((2 ^ (n - 1) : Nat) : Int) = 2 ^ (n - 1) := Int.natCast_pow 2 (n - 1)
  have hlow : -(((2 ^ n : Nat) : Int) / 2) ≤ decode n r := Int.le_bmod (Nat.two_pow_pos n)
  have hhigh : decode n r < (((2 ^ n : Nat) : Int) + 1) / 2 := Int.bmod_lt (Nat.two_pow_pos n)
  omega

/-- Only the lowest bits of a pattern are decoded. -/
theorem decode_mod (n r : Nat) : decode n (r % 2 ^ n) = decode n r := by
  rw [decode, decode, Int.natCast_emod, Int.emod_bmod]

/-- A pattern that is moved up inside a wider one is decoded to as much more. -/
theorem decode_mul_two_pow (hn : 0 < n) (r s : Nat) :
    decode (n + s) (r * 2 ^ s) = decode n r * (2 ^ s : Nat) := by
  obtain ⟨hlow, hhigh⟩ := decode_range hn r
  have hpos : (0 : Int) < (2 ^ s : Nat) := Int.ofNat_lt.2 (Nat.two_pow_pos s)
  have hbits : (2 : Int) ^ (n + s - 1) = 2 ^ (n - 1) * (2 ^ s : Nat) := by
    have htwo : ((2 : Nat) : Int) = 2 := rfl
    rw [Int.natCast_pow, htwo, ← Int.pow_add]
    congr 1
    omega
  have hencode : encode (n + s) (decode n r * (2 ^ s : Nat)) = r * 2 ^ s % 2 ^ (n + s) := by
    have hmod : decode n r * (2 ^ s : Nat) % (2 ^ (n + s) : Nat) =
        (encode n (decode n r) * 2 ^ s : Nat) := by
      rw [Nat.pow_add, Nat.mul_comm (2 ^ n), Int.mul_comm, Int.natCast_mul,
        Int.mul_emod_mul_of_pos _ _ hpos, ← natCast_encode, ← Int.natCast_mul, Nat.mul_comm]
    rw [encode, hmod, Int.toNat_natCast, encode_decode, Nat.pow_add, Nat.mul_mod_mul_right]
  rw [← decode_mod, ← hencode]
  refine decode_encode (Nat.add_pos_left hn s) ?_ ?_
  · rw [hbits, ← Int.neg_mul]
    exact Int.mul_le_mul_of_nonneg_right hlow (Int.le_of_lt hpos)
  · rw [hbits]
    exact Int.mul_lt_mul_of_pos_right hhigh hpos

end Microcontroller.TwosComplement
