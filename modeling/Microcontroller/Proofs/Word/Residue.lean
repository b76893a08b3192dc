import Mathlib.Data.Int.ModEq
import Microcontroller.Proofs.Word.TwosComplement
import Microcontroller.Word.Basic
/-!
# What is left of an integer in a word

In `n` bits there is room for `2 ^ n` integers: those from zero on, or as many on both sides of zero. Of
an integer that is not among them the one is left that it is congruent to modulo `2 ^ n`, and there is
just one. What words hold and show is said here in these terms, with nothing of how a pattern is made.
-/

namespace Microcontroller

namespace TwosComplement

/-- There is room for `y` in `n` bits. -/
def InRange (n : Nat) (signed : Bool) (y : Int) : Prop :=
  if signed then -2 ^ (n - 1) ≤ y ∧ y < 2 ^ (n - 1) else 0 ≤ y ∧ y < 2 ^ n

/-- What is left of `x` in `n` bits is `y`. -/
structure Residue (n : Nat) (signed : Bool) (x y : Int) : Prop where
  modEq : y ≡ x [ZMOD 2 ^ n]
  inRange : InRange n signed y

variable {n : Nat} {signed : Bool} {x y z : Int}

theorem Residue.congr (h : Residue n signed x y) (hx : x ≡ z [ZMOD 2 ^ n]) : Residue n signed z y :=
  ⟨h.modEq.trans hx, h.inRange⟩

/-- Two integers that there is room for are less than `2 ^ n` apart. -/
theorem abs_sub_lt_of_inRange (hn : 0 < n) (hy : InRange n signed y) (hz : InRange n signed z) :
    |z - y| < 2 ^ n := by
  have hdouble : (2 : Int) ^ n = 2 * 2 ^ (n - 1) := by
    rw [← pow_succ', Nat.sub_add_cancel hn]
  cases signed with
  | false =>
    obtain ⟨hy0, hy1⟩ : 0 ≤ y ∧ y < 2 ^ n := hy
    obtain ⟨hz0, hz1⟩ : 0 ≤ z ∧ z < 2 ^ n := hz
    rw [abs_lt]
    omega
  | true =>
    obtain ⟨hy0, hy1⟩ : -2 ^ (n - 1) ≤ y ∧ y < 2 ^ (n - 1) := hy
    obtain ⟨hz0, hz1⟩ : -2 ^ (n - 1) ≤ z ∧ z < 2 ^ (n - 1) := hz
    rw [abs_lt, hdouble]
    omega

theorem Residue.unique (hn : 0 < n) (hy : Residue n signed x y) (hz : Residue n signed x z) :
    y = z := by
  have hdvd : (2 : Int) ^ n ∣ z - y := (hy.modEq.trans hz.modEq.symm).dvd
  have hzero := Int.eq_zero_of_abs_lt_dvd hdvd (abs_sub_lt_of_inRange hn hy.inRange hz.inRange)
  exact (Int.sub_eq_zero.1 hzero).symm

theorem Residue.eq_iff (hn : 0 < n) (hy : Residue n signed x y) (z : Int) :
    y = z ↔ Residue n signed x z :=
  ⟨fun h => h ▸ hy, hy.unique hn⟩

/-! ### Patterns -/

theorem encode_modEq (n : Nat) (x : Int) : (encode n x : Int) ≡ x [ZMOD 2 ^ n] := by
  rw [natCast_encode, Int.natCast_pow]
  exact Int.mod_modEq x _

theorem encode_residue (n : Nat) (x : Int) : Residue n false x (encode n x) where
  modEq := encode_modEq n x
  inRange := ⟨Int.natCast_nonneg _, by exact_mod_cast encode_lt n x⟩

theorem decode_residue (hn : 0 < n) (r : Nat) : Residue n true r (decode n r) where
  modEq := by
    have hmod : decode n r % (2 ^ n : Nat) = r % (2 ^ n : Nat) := Int.bmod_emod
    rwa [Int.natCast_pow] at hmod
  inRange := decode_range hn r

end TwosComplement

open TwosComplement

namespace Width

variable {w : Width}

/-- A pattern of a word shows what is left in the word of its number. -/
theorem value_residue {r : Nat} (hr : r < w.capacity) (signed : Bool) :
    Residue w.bits signed r (w.value signed r) := by
  cases signed with
  | false =>
    have hlt : (r : Int) < 2 ^ w.bits := by exact_mod_cast hr
    exact ⟨rfl, Int.natCast_nonneg r, hlt⟩
  | true => exact decode_residue w.bits_pos r

end Width

namespace Word

/-- A word shows what is left in it of the integer that it was set to. -/
theorem get_set_residue (x : Word) (v : Int) :
    Residue x.width.bits x.signed v (x.set v).get :=
  (Width.value_residue (x.width.wrap_lt v) x.signed).congr (encode_modEq x.width.bits v)

end Word

end Microcontroller
