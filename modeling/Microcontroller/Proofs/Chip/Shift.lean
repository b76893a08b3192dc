import Mathlib.Logic.Function.Iterate
import Microcontroller.Proofs.Chip.Exact
/-!
# Shifts and rotations

A word with the carry on top of it is a number of one bit more. A rotation turns this number by one
place: it halves it, and what is left over comes back at the top. So a rotation undoes the doubling of a
word, and as many rotations as the number has bits bring every bit back to where it was. The other
shifts halve or double a word and have no more to them than that; a shift to the left is the sum of a
word with itself, flags included.
-/

namespace Microcontroller.Alu

/-- One rotation of a word through the carry. -/
def rotate (bits : Nat) (p : Nat × Bool) : Nat × Bool :=
  ((rotateRight bits p.1 p.2).value, (rotateRight bits p.1 p.2).carryOut)

/-- A word and a carry as one number, the carry on top. -/
def joined (bits : Nat) (p : Nat × Bool) : Nat := p.1 + 2 ^ bits * p.2.toNat

variable {bits a : Nat} {p q : Nat × Bool}

/-! ### Turning a number by one place -/

theorem joined_lt (hp : p.1 < 2 ^ bits) : joined bits p < 2 ^ (bits + 1) := by
  have hcarry := Nat.mul_le_mul_left (2 ^ bits) p.2.toNat_le
  rw [joined, Nat.pow_succ]
  omega

theorem eq_of_joined_eq (hp : p.1 < 2 ^ bits) (hq : q.1 < 2 ^ bits)
    (h : joined bits p = joined bits q) : p = q := by
  obtain ⟨hword, hcarry⟩ := eq_of_carry hp hq h
  exact Prod.ext hword hcarry

/-- A rotation sees its word modulo its size. -/
theorem rotate_residue (bits a : Nat) (carry : Bool) :
    rotate bits (a % 2 ^ bits, carry) = rotate bits (a, carry) := by
  simp only [rotate, rotateRight, Nat.mod_mod]

theorem rotate_lt (hbits : 0 < bits) (p : Nat × Bool) : (rotate bits p).1 < 2 ^ bits := by
  rw [← rotate_residue bits p.1 p.2]
  exact (rotateRight_agrees hbits (Nat.mod_lt _ (Nat.two_pow_pos bits)) p.2).lt

theorem joined_rotate (hbits : 0 < bits) (hp : p.1 < 2 ^ bits) :
    joined bits (rotate bits p) = joined bits p / 2 + 2 ^ bits * (joined bits p % 2) := by
  have htwo := two_pow_eq hbits
  have hvalue : (rotate bits p).1 = p.1 / 2 + p.2.toNat * 2 ^ (bits - 1) := by
    simp only [rotate, rotateRight, shifted, Outcome.of, Nat.mod_eq_of_lt hp]
  have hcarry : (rotate bits p).2.toNat = p.1 % 2 := by
    simp only [rotate, rotateRight, shifted, Outcome.of, Outcome.carryOut, Option.getD_some,
      Nat.mod_eq_of_lt hp, Nat.testBit_zero]
    rcases Nat.mod_two_eq_zero_or_one p.1 with h | h <;> simp only [h] <;> rfl
  -- The carry is worth twice the top place of the word, and it is the only bit that is.
  have hdouble : 2 ^ bits * p.2.toNat = 2 * (p.2.toNat * 2 ^ (bits - 1)) := by
    rw [htwo, Nat.mul_assoc, Nat.mul_comm p.2.toNat]
  have hhalf : joined bits p / 2 = (rotate bits p).1 := by
    rw [joined, hdouble, hvalue]
    omega
  have hrest : joined bits p % 2 = (rotate bits p).2.toNat := by
    rw [joined, hdouble, hcarry]
    omega
  rw [hhalf, hrest, joined]

/-- What is turned by some places and then by one more has been turned by one place more. -/
theorem turn_succ (n m k : Nat) :
    (n / 2 ^ k + 2 ^ (m + 1) * (n % 2 ^ k)) / 2 +
        2 ^ (m + k) * ((n / 2 ^ k + 2 ^ (m + 1) * (n % 2 ^ k)) % 2) =
      n / 2 ^ (k + 1) + 2 ^ m * (n % 2 ^ (k + 1)) := by
  have hdouble : 2 ^ (m + 1) * (n % 2 ^ k) = 2 * (2 ^ m * (n % 2 ^ k)) := by
    rw [Nat.pow_succ, Nat.mul_comm (2 ^ m) 2, Nat.mul_assoc]
  have hquotient : n / 2 ^ (k + 1) = n / 2 ^ k / 2 := by
    rw [Nat.pow_succ, Nat.div_div_eq_div_mul]
  have hremainder : 2 ^ m * (n % 2 ^ (k + 1)) =
      2 ^ m * (n % 2 ^ k) + 2 ^ (m + k) * (n / 2 ^ k % 2) := by
    rw [Nat.mod_pow_succ, Nat.mul_add, ← Nat.mul_assoc, ← Nat.pow_add]
  have hhalf : (n / 2 ^ k + 2 * (2 ^ m * (n % 2 ^ k))) / 2 = n / 2 ^ k / 2 + 2 ^ m * (n % 2 ^ k) := by
    omega
  have hlow : (n / 2 ^ k + 2 * (2 ^ m * (n % 2 ^ k))) % 2 = n / 2 ^ k % 2 := by omega
  rw [hdouble, hhalf, hlow, hquotient, hremainder, Nat.add_assoc]

/-- Rotations turn the number by as many places as they are. -/
theorem joined_iterate (hbits : 0 < bits) (hp : p.1 < 2 ^ bits) {k m : Nat} (hk : m + k = bits + 1) :
    ((rotate bits)^[k] p).1 < 2 ^ bits ∧ joined bits ((rotate bits)^[k] p) =
      joined bits p / 2 ^ k + 2 ^ m * (joined bits p % 2 ^ k) := by
  induction k generalizing m with
  | zero =>
    refine ⟨hp, ?_⟩
    rw [Nat.pow_zero, Nat.div_one, Nat.mod_one, Nat.mul_zero, Nat.add_zero, Function.iterate_zero_apply]
  | succ k ih =>
    obtain ⟨hlt, hjoined⟩ := ih (m := m + 1) (by omega)
    have hsize : bits = m + k := by omega
    rw [Function.iterate_succ_apply']
    refine ⟨rotate_lt hbits _, ?_⟩
    rw [joined_rotate hbits hlt, hjoined, ← turn_succ]
    rw [hsize]

/-- Turned by all of its places, a number is what it was. -/
theorem iterate_rotate (hbits : 0 < bits) (a : Nat) (carry : Bool) :
    (rotate bits)^[bits + 1] (a, carry) = (a % 2 ^ bits, carry) := by
  have ha : a % 2 ^ bits < 2 ^ bits := Nat.mod_lt _ (Nat.two_pow_pos bits)
  rw [Function.iterate_succ_apply, ← rotate_residue, ← Function.iterate_succ_apply]
  obtain ⟨hlt, hjoined⟩ :=
    joined_iterate (p := (a % 2 ^ bits, carry)) hbits ha (Nat.zero_add (bits + 1))
  have hsize : joined bits (a % 2 ^ bits, carry) < 2 ^ (bits + 1) := joined_lt ha
  rw [Nat.div_eq_of_lt hsize, Nat.mod_eq_of_lt hsize, Nat.pow_zero, Nat.one_mul, Nat.zero_add]
    at hjoined
  exact eq_of_joined_eq hlt ha hjoined

/-- A rotation takes a double and its carry apart again. -/
theorem rotate_double (hbits : 0 < bits) (a : Nat) (carry : Bool) :
    rotate bits ((add bits a a carry).value, (add bits a a carry).carryOut) =
      (a % 2 ^ bits, carry) := by
  have ha : a % 2 ^ bits < 2 ^ bits := Nat.mod_lt _ (Nat.two_pow_pos bits)
  have hcarry := carry.toNat_le
  have hdouble := add_exact ha ha carry
  rw [add_residues] at hdouble
  apply eq_of_joined_eq (rotate_lt hbits _) ha
  rw [joined_rotate hbits (add_ofWord bits a a carry).lt]
  simp only [joined]
  rw [hdouble]
  have hhalf : (a % 2 ^ bits + a % 2 ^ bits + carry.toNat) / 2 = a % 2 ^ bits := by omega
  have hlow : (a % 2 ^ bits + a % 2 ^ bits + carry.toNat) % 2 = carry.toNat := by omega
  rw [hhalf, hlow]

/-! ### The other shifts -/

/-- A shift to the left finds its flags by other means than a sum does, and they are the same. -/
theorem shiftLeft_eq_add (hbits : 0 < bits) (a : Nat) : shiftLeft bits a = add bits a a false := by
  have htwo := two_pow_eq hbits
  have ha : a % 2 ^ bits < 2 ^ bits := Nat.mod_lt _ (Nat.two_pow_pos bits)
  have hcarry : negative bits (a % 2 ^ bits) =
      decide (2 ^ bits ≤ a % 2 ^ bits + a % 2 ^ bits + false.toNat) := by
    rw [negative_eq hbits ha, decide_eq_decide, Bool.toNat_false]
    omega
  have hhalf : (a % 2 ^ bits).testBit 3 =
      decide (16 ≤ a % 2 ^ bits % 16 + a % 2 ^ bits % 16 + false.toNat) := by
    rw [Nat.testBit_eq_decide_div_mod_eq, decide_eq_decide, Bool.toNat_false]
    omega
  have hvalue : 2 * (a % 2 ^ bits) = a % 2 ^ bits + a % 2 ^ bits + false.toNat := by
    rw [Bool.toNat_false, Nat.add_zero, Nat.two_mul]
  simp only [shiftLeft, add, shifted]
  rw [← hcarry, ← hhalf, hvalue, Bool.and_self, bne_comm]

theorem exists_overflow_shifted (value : Nat) (carry : Bool) (halfCarry : Option Bool) :
    ∃ s c, (shifted bits value carry halfCarry).flag? .sign = some s ∧
      (shifted bits value carry halfCarry).flag? .carry = some c ∧
      (shifted bits value carry halfCarry).flag? .overflow = some (s ^^ c) :=
  ⟨_, _, rfl, rfl, congrArg some (congrFun₂ Bool.bne_eq_xor _ _)⟩

/-- Rotations, and shifts as arithmetic on the word and on the integer that it stands for. As many
rotations as there are bits, the carry counted, change nothing; one of them undoes a doubling, and a
shift to the left is one. -/
theorem shifts_exact (hbits : 0 < bits) (x : Nat) (carry : Bool) :
    let a := x % 2 ^ bits
    (rotate bits)^[bits + 1] (x, carry) = (a, carry) ∧
    (∀ p, (rotateRight bits p.1 p.2).value = (rotate bits p).1 ∧
      (rotateRight bits p.1 p.2).flag? .carry = some (rotate bits p).2) ∧
    (∃ out, (add bits x x carry).flag? .carry = some out ∧
      (rotateRight bits (add bits x x carry).value out).value = a ∧
      (rotateRight bits (add bits x x carry).value out).flag? .carry = some carry) ∧
    shiftLeft bits x = add bits x x false ∧
    ((shiftRight bits x).value = a / 2 ∧ (shiftRight bits x).Tells .carry (a % 2 = 1)) ∧
    (((arithmeticShiftRight bits x).value : Int) = Meaning.signed bits a / 2 % 2 ^ bits ∧
      (arithmeticShiftRight bits x).Tells .carry (a % 2 = 1)) ∧
    ∀ o ∈ [shiftLeft bits x, shiftRight bits x, arithmeticShiftRight bits x,
        rotateRight bits x carry],
      ∃ s c, o.flag? .sign = some s ∧ o.flag? .carry = some c ∧
        o.flag? .overflow = some (s ^^ c) := by
  intro a
  have ha : a < 2 ^ bits := Nat.mod_lt _ (Nat.two_pow_pos bits)
  have hdouble := rotate_double hbits x carry
  have harithmetic := arithmeticShiftRight_agrees hbits ha
  rw [show arithmeticShiftRight bits a = arithmeticShiftRight bits x by
    simp only [arithmeticShiftRight, a, Nat.mod_mod]] at harithmetic
  have hnonneg : 0 ≤ Meaning.signed bits a / 2 % 2 ^ bits := Int.emod_nonneg _ (by positivity)
  refine ⟨iterate_rotate hbits x carry, fun p => ⟨rfl, rfl⟩, ⟨_, rfl, congrArg Prod.fst hdouble, ?_⟩,
    shiftLeft_eq_add hbits x, ⟨rfl, _, rfl, testBit_zero_iff a⟩, ⟨?_, _, rfl, testBit_zero_iff a⟩, ?_⟩
  · exact congrArg some (congrArg Prod.snd hdouble)
  · rw [harithmetic.value]
    exact Int.toNat_of_nonneg hnonneg
  · simp only [List.forall_mem_cons, List.not_mem_nil, false_implies, implies_true, and_true]
    exact ⟨exists_overflow_shifted .., exists_overflow_shifted .., exists_overflow_shifted ..,
      exists_overflow_shifted ..⟩

/-- Nine rotations of eight bits, from a word that is too long, and what they pass through halfway; and
an odd negative number, which is halved towards the lesser integer. -/
theorem shifts_exact_odd :
    0 < 8 ∧ (rotate 8)^[9] (0x1C3, true) = (0xC3, true) ∧ (rotate 8)^[4] (0x1C3, true) = (0x7C, false) ∧
      ((arithmeticShiftRight 8 0x1C3).value : Int) = (-61) / 2 % 2 ^ 8 := by
  have hbits : 0 < 8 := by decide
  have hsigned : Meaning.signed 8 (0x1C3 % 2 ^ 8) = -61 := by decide
  obtain ⟨hperiod, -, -, -, -, ⟨hvalue, -⟩, -⟩ := shifts_exact hbits 0x1C3 true
  rw [hsigned] at hvalue
  exact ⟨hbits, hperiod, by decide +kernel, hvalue⟩

end Microcontroller.Alu
