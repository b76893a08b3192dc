import Microcontroller.Chip.Alu
import Microcontroller.Proofs.Unguarded.Isa
/-!
# Arithmetic without guards

All arithmetic is carried out in 64 bits, whatever the width of the operands. Only two things in it
depend on the width: the mask that cuts a number down to its lowest bits, and the sign bit. Both are
made by a shift, which stays inside the 64 bits for every width from 1 to 64.
-/

namespace Microcontroller.Alu

open Unguarded

/-- The lowest `bits` bits of a number. -/
def cut! (bits a : Nat) : Unguarded Nat := do return a &&& (← mask! 64 bits)

/-- The number whose only one is the top bit. -/
def signBit! (bits : Nat) : Unguarded Nat := do Unguarded.shiftLeft 64 1 (← Unguarded.sub bits 1)

def negative! (bits value : Nat) : Unguarded Bool := do return value &&& (← signBit! bits) != 0

def Outcome.of! (bits value : Nat) (carry overflow halfCarry : Option Bool) : Unguarded Outcome := do
  return ⟨value, value == 0, ← negative! bits value, evenOnes bits value, carry, overflow, halfCarry⟩

def Outcome.flag! (o : Outcome) (f : Flag) : Unguarded (Option Bool) := atFlag! o.flag? f

def add! (bits a b : Nat) (carry : Bool) : Unguarded Outcome := do
  let a ← cut! bits a
  let b ← cut! bits b
  let sum := a + b + carry.toNat
  let value ← cut! bits sum
  let sign ← negative! bits value
  let overflow := ((← negative! bits a) != sign) && ((← negative! bits b) != sign)
  Outcome.of! bits value (decide (2 ^ bits ≤ sum)) overflow
    (decide (16 ≤ a % 16 + b % 16 + carry.toNat))

/-- The difference is taken around the end of the numbers, which is a step of its own kind. -/
def sub! (bits a b : Nat) (borrow : Bool) : Unguarded Outcome := do
  let a ← cut! bits a
  let b ← cut! bits b
  let value ← cut! bits (2 ^ bits + a - (b + borrow.toNat))
  let sign ← negative! bits a
  let overflow := (sign != (← negative! bits b)) && (sign != (← negative! bits value))
  Outcome.of! bits value (decide (a < b + borrow.toNat)) overflow
    (decide (a % 16 < b % 16 + borrow.toNat))

def logic! (bits value : Nat) : Unguarded Outcome := do
  Outcome.of! bits (← cut! bits value) none false none

def complement! (bits a : Nat) : Unguarded Outcome := do
  let a ← cut! bits a
  Outcome.of! bits (a ^^^ (← mask! 64 bits)) true false none

def negate! (bits a : Nat) : Unguarded Outcome := sub! bits 0 a false

def shifted! (bits value : Nat) (carry : Bool) (halfCarry : Option Bool) : Unguarded Outcome := do
  let overflow := (← negative! bits value) != carry
  Outcome.of! bits value carry overflow halfCarry

def shiftLeft! (bits a : Nat) : Unguarded Outcome := do
  let a ← cut! bits a
  let value ← cut! bits (← Unguarded.shiftLeft 64 a 1)
  shifted! bits value (← negative! bits a) (a.testBit 3)

def shiftRight! (bits a : Nat) : Unguarded Outcome := do
  let a ← cut! bits a
  shifted! bits (← Unguarded.shiftRight 64 a 1) (a.testBit 0) none

def arithmeticShiftRight! (bits a : Nat) : Unguarded Outcome := do
  let a ← cut! bits a
  let top := (← negative! bits a).toNat * (← signBit! bits)
  shifted! bits ((← Unguarded.shiftRight 64 a 1) + top) (a.testBit 0) none

def rotateRight! (bits a : Nat) (carry : Bool) : Unguarded Outcome := do
  let a ← cut! bits a
  let top := carry.toNat * (← signBit! bits)
  shifted! bits ((← Unguarded.shiftRight 64 a 1) + top) (a.testBit 0) none

section

theorem Outcome.flag!_eq (o : Outcome) (f : Flag) : o.flag! f = .ok (o.flag? f) := atFlag!_eq o.flag? f

variable {bits : Nat} (hpos : 0 < bits) (hle : bits ≤ 64)

section

include hle

theorem cut!_eq (a : Nat) : cut! bits a = .ok (a % 2 ^ bits) := by
  rw [cut!, mask!_eq hle, ok_bind, Nat.and_two_pow_sub_one_eq_mod]
  rfl

end

include hpos hle

theorem signBit!_eq : signBit! bits = .ok (2 ^ (bits - 1)) := by
  have hlt : bits - 1 < 64 := by omega
  rw [signBit!, sub_eq hpos, ok_bind, shiftLeft_eq hlt, Nat.one_mul,
    Nat.mod_eq_of_lt (Nat.pow_lt_pow_right (by decide) hlt)]

theorem negative!_eq (value : Nat) : negative! bits value = .ok (negative bits value) := by
  have hpow := Nat.two_pow_pos (bits - 1)
  rw [negative!, signBit!_eq hpos hle, ok_bind, Nat.and_two_pow, negative]
  cases value.testBit (bits - 1) with
  | false => rw [Bool.toNat_false, Nat.zero_mul]; rfl
  | true =>
    have hone : (1 * 2 ^ (bits - 1) != 0) = true := bne_iff_ne.2 (by omega)
    rw [Bool.toNat_true, hone]
    rfl

theorem Outcome.of!_eq (value : Nat) (carry overflow halfCarry : Option Bool) :
    Outcome.of! bits value carry overflow halfCarry =
      .ok (.of bits value carry overflow halfCarry) := by
  rw [Outcome.of!, negative!_eq hpos hle, ok_bind]
  rfl

theorem add!_eq (a b : Nat) (carry : Bool) : add! bits a b carry = .ok (add bits a b carry) := by
  simp only [add!, cut!_eq hle, negative!_eq hpos hle, ok_bind, Outcome.of!_eq hpos hle]
  rfl

theorem sub!_eq (a b : Nat) (borrow : Bool) : sub! bits a b borrow = .ok (sub bits a b borrow) := by
  simp only [sub!, cut!_eq hle, negative!_eq hpos hle, ok_bind, Outcome.of!_eq hpos hle]
  rfl

theorem logic!_eq (value : Nat) : logic! bits value = .ok (logic bits value) := by
  rw [logic!, cut!_eq hle, ok_bind, Outcome.of!_eq hpos hle]
  rfl

theorem complement!_eq (a : Nat) : complement! bits a = .ok (complement bits a) := by
  have hxor : (a % 2 ^ bits) ^^^ (2 ^ bits - 1) = 2 ^ bits - 1 - a % 2 ^ bits := by
    have hlt : a % 2 ^ bits < 2 ^ bits := Nat.mod_lt _ (Nat.two_pow_pos bits)
    refine Nat.eq_of_testBit_eq fun i => ?_
    rw [Nat.sub_sub, Nat.add_comm 1, Nat.testBit_two_pow_sub_succ hlt, Nat.testBit_xor,
      Nat.testBit_two_pow_sub_one, Nat.testBit_mod_two_pow]
    cases decide (i < bits) <;> cases a.testBit i <;> rfl
  rw [complement!, cut!_eq hle, ok_bind, mask!_eq hle, ok_bind, hxor, Outcome.of!_eq hpos hle]
  rfl

theorem shifted!_eq (value : Nat) (carry : Bool) (halfCarry : Option Bool) :
    shifted! bits value carry halfCarry = .ok (shifted bits value carry halfCarry) := by
  rw [shifted!, negative!_eq hpos hle, ok_bind, Outcome.of!_eq hpos hle]
  rfl

theorem shiftLeft!_eq (a : Nat) : shiftLeft! bits a = .ok (shiftLeft bits a) := by
  have hdvd : 2 ^ bits ∣ 2 ^ 64 := Nat.pow_dvd_pow 2 hle
  simp only [shiftLeft!, cut!_eq hle, negative!_eq hpos hle, ok_bind,
    Unguarded.shiftLeft_eq (by decide : 1 < 64), shifted!_eq hpos hle, Nat.mod_mod_of_dvd _ hdvd,
    Nat.pow_one, Nat.mul_comm _ 2]
  rfl

theorem shiftRight!_eq (a : Nat) : shiftRight! bits a = .ok (shiftRight bits a) := by
  simp only [shiftRight!, cut!_eq hle, ok_bind, Unguarded.shiftRight_eq (by decide : 1 < 64),
    shifted!_eq hpos hle]
  rfl

theorem arithmeticShiftRight!_eq (a : Nat) :
    arithmeticShiftRight! bits a = .ok (arithmeticShiftRight bits a) := by
  simp only [arithmeticShiftRight!, cut!_eq hle, negative!_eq hpos hle, signBit!_eq hpos hle, ok_bind,
    Unguarded.shiftRight_eq (by decide : 1 < 64), shifted!_eq hpos hle]
  rfl

theorem rotateRight!_eq (a : Nat) (carry : Bool) :
    rotateRight! bits a carry = .ok (rotateRight bits a carry) := by
  simp only [rotateRight!, cut!_eq hle, signBit!_eq hpos hle, ok_bind,
    Unguarded.shiftRight_eq (by decide : 1 < 64), shifted!_eq hpos hle]
  rfl

end

end Microcontroller.Alu
