import Mathlib.Tactic.NormNum
import Microcontroller.Chip.Alu
import Microcontroller.Proofs.Chip.Meaning
/-!
# Arithmetic computes what it means

Every operation of the arithmetic unit gives the result that its meaning asks for, and each flag that
it gives a value is set under the condition that the meaning puts on it. The unit finds overflow by
comparing signs; here that is shown to be the same as the exact value leaving the signed range.
-/

namespace Microcontroller

/-- The flags that an arithmetic operation gives a value. -/
def Operation.sets : Operation → List Flag
  | .add | .addWithCarry | .subtract | .subtractWithCarry | .compare | .increment | .decrement
  | .negate | .shiftLeft => [.halfCarry, .carry, .overflow, .zero, .sign, .parity]
  | .complement | .shiftRight | .arithmeticShiftRight | .rotateRight =>
    [.carry, .overflow, .zero, .sign, .parity]
  | .and | .or | .xor => [.overflow, .zero, .sign, .parity]
  | _ => []

namespace Alu

/-- An outcome has the result of a meaning, and for these flags the values. -/
structure Agrees (bits : Nat) (flags : List Flag) (o : Outcome) (m : Meaning) : Prop where
  value : o.value = m.result
  lt : o.value < 2 ^ bits
  flag : ∀ f ∈ flags, ∃ v, o.flag? f = some v ∧ (v = true ↔ m.Sets bits f)

variable {bits a b : Nat}

theorem Agrees.cons {flags : List Flag} {o : Outcome} {m : Meaning} (h : Agrees bits flags o m)
    {f : Flag} {v : Bool} (hf : o.flag? f = some v) (hv : v = true ↔ m.Sets bits f) :
    Agrees bits (f :: flags) o m :=
  ⟨h.value, h.lt, List.forall_mem_cons.2 ⟨⟨v, hf, hv⟩, h.flag⟩⟩

/-! ### Signs and residues -/

theorem two_pow_eq (hbits : 0 < bits) : 2 ^ bits = 2 * 2 ^ (bits - 1) := by
  rw [Nat.mul_comm, ← Nat.pow_succ]
  congr 1
  omega

/-- The top bit of a word says whether the word lies in the upper half. -/
theorem negative_eq (hbits : 0 < bits) (ha : a < 2 ^ bits) :
    negative bits a = decide (2 ^ (bits - 1) ≤ a) := by
  have htwo := two_pow_eq hbits
  rw [negative, Nat.testBit_eq_decide_div_mod_eq, decide_eq_decide]
  by_cases hle : 2 ^ (bits - 1) ≤ a
  · have hdiv : a / 2 ^ (bits - 1) = 1 := Nat.div_eq_of_lt_le (by omega) (by omega)
    simp only [hdiv, hle]
  · have hdiv : a / 2 ^ (bits - 1) = 0 := Nat.div_eq_of_lt (by omega)
    simp only [hdiv, hle, Nat.zero_mod, Nat.zero_ne_one]

theorem evenOnes_iff (bits value : Nat) : evenOnes bits value = true ↔
    Even ((Finset.range bits).filter fun i => value.testBit i).card := by
  have hcard : ((Finset.range bits).filter fun i => value.testBit i).card =
      (List.range bits).countP value.testBit := by
    rw [List.countP_eq_length_filter, Finset.card_def, Finset.filter_val, Finset.range_val,
      ← Multiset.coe_range, Multiset.filter_coe, Multiset.coe_card]
    simp only [Bool.decide_eq_true]
  rw [hcard, evenOnes, Nat.even_iff, beq_iff_eq]

theorem natCast_two_pow (n : Nat) : (2 : Int) ^ n = ((2 ^ n : Nat) : Int) := by
  push_cast
  rfl

theorem toNat_natCast_emod (n bits : Nat) : ((n : Int) % 2 ^ bits).toNat = n % 2 ^ bits := by
  rw [natCast_two_pow, ← Int.natCast_emod, Int.toNat_natCast]

/-- The two readings of a word: in the lower half they are the same, in the upper half they differ by
a whole turn. -/
theorem signed_cases (bits a : Nat) :
    a < 2 ^ (bits - 1) ∧ Meaning.signed bits a = a ∨
      2 ^ (bits - 1) ≤ a ∧ Meaning.signed bits a = a - (2 ^ bits : Nat) := by
  rw [Meaning.signed, natCast_two_pow]
  by_cases h : a < 2 ^ (bits - 1)
  · exact Or.inl ⟨h, if_pos h⟩
  · exact Or.inr ⟨Nat.le_of_not_lt h, if_neg h⟩

/-- Zero, sign and parity belong to the result, whatever the operation. -/
theorem agrees_of_result (hbits : 0 < bits) {m : Meaning} {value : Nat} (hlt : value < 2 ^ bits)
    (hvalue : value = m.result) (carry overflow halfCarry : Option Bool) :
    Agrees bits [.zero, .sign, .parity] (.of bits value carry overflow halfCarry) m where
  value := hvalue
  lt := hlt
  flag := by
    have hzero : (value == 0) = true ↔ m.result = 0 := by rw [beq_iff_eq, hvalue]
    have hsign : negative bits value = true ↔ 2 ^ (bits - 1) ≤ m.result := by
      rw [negative_eq hbits hlt, decide_eq_true_eq, hvalue]
    have hparity := evenOnes_iff bits value
    rw [hvalue] at hparity
    simp only [List.forall_mem_cons, List.not_mem_nil, false_implies, implies_true, and_true]
    exact ⟨⟨_, rfl, hzero⟩, ⟨_, rfl, hsign⟩, ⟨_, rfl, hvalue ▸ hparity⟩⟩

/-! ### Sums and differences -/

theorem mod_two_pow_cases (bits n : Nat) (h : n < 2 * 2 ^ bits) :
    n < 2 ^ bits ∧ n % 2 ^ bits = n ∨ 2 ^ bits ≤ n ∧ n % 2 ^ bits = n - 2 ^ bits := by
  by_cases hlt : n < 2 ^ bits
  · exact Or.inl ⟨hlt, Nat.mod_eq_of_lt hlt⟩
  · have hle := Nat.le_of_not_lt hlt
    refine Or.inr ⟨hle, ?_⟩
    rw [Nat.mod_eq_sub_mod hle, Nat.mod_eq_of_lt (by omega)]

/-- Two words differ in sign from their sum exactly if the integers they stand for leave the range. -/
theorem sum_overflow_iff (hbits : 0 < bits) (ha : a < 2 ^ bits) (hb : b < 2 ^ bits) {c v : Nat}
    (hc : c ≤ 1) (hv : (a + b + c) % 2 ^ bits = v) :
    (¬(2 ^ (bits - 1) ≤ a ↔ 2 ^ (bits - 1) ≤ v) ∧ ¬(2 ^ (bits - 1) ≤ b ↔ 2 ^ (bits - 1) ≤ v)) ↔
      (Meaning.sum bits a b c).overflow := by
  have htwo := two_pow_eq hbits
  -- Each operand is in the lower or the upper half, and the sum has gone around or not. In each case
  -- both sides are linear in the operands.
  simp only [Meaning.sum, Meaning.exact]
  rw [natCast_two_pow]
  rcases signed_cases bits a with ⟨hlow, hsa⟩ | ⟨hhigh, hsa⟩ <;>
    rcases signed_cases bits b with ⟨hlow', hsb⟩ | ⟨hhigh', hsb⟩ <;>
    rcases mod_two_pow_cases bits (a + b + c) (by omega) with
      ⟨hsum, hmod⟩ | ⟨hsum, hmod⟩ <;>
    rw [hsa, hsb] <;> omega

theorem add_agrees (hbits : 0 < bits) (ha : a < 2 ^ bits) (hb : b < 2 ^ bits) (carry : Bool) :
    Agrees bits [.halfCarry, .carry, .overflow, .zero, .sign, .parity] (add bits a b carry)
      (.sum bits a b carry.toNat) := by
  have hcarry := carry.toNat_le
  have hlt : (a + b + carry.toNat) % 2 ^ bits < 2 ^ bits := Nat.mod_lt _ (by omega)
  have hresult : (a + b + carry.toNat) % 2 ^ bits = (Meaning.sum bits a b carry.toNat).result := by
    rw [← toNat_natCast_emod]
    push_cast
    rfl
  have hvalue := agrees_of_result hbits hlt hresult
  rw [add, Nat.mod_eq_of_lt ha, Nat.mod_eq_of_lt hb]
  refine (((hvalue _ _ _).cons rfl ?_).cons rfl ?_).cons rfl ?_
  · rw [negative_eq hbits ha, negative_eq hbits hb, negative_eq hbits hlt]
    simp only [Bool.and_eq_true, bne_iff_ne, ne_eq, decide_eq_decide]
    exact sum_overflow_iff hbits ha hb hcarry rfl
  · rw [decide_eq_true_eq]
    simp only [Meaning.Sets, Meaning.sum, Meaning.exact]
    rw [natCast_two_pow]
    omega
  · rw [decide_eq_true_eq]
    simp only [Meaning.Sets, Meaning.sum, Meaning.exact]
    omega

theorem difference_overflow_iff (hbits : 0 < bits) (ha : a < 2 ^ bits) (hb : b < 2 ^ bits)
    {c v : Nat} (hc : c ≤ 1) (hv : (2 ^ bits + a - (b + c)) % 2 ^ bits = v) :
    (¬(2 ^ (bits - 1) ≤ a ↔ 2 ^ (bits - 1) ≤ b) ∧ ¬(2 ^ (bits - 1) ≤ a ↔ 2 ^ (bits - 1) ≤ v)) ↔
      (Meaning.difference bits a b c).overflow := by
  have htwo := two_pow_eq hbits
  simp only [Meaning.difference, Meaning.exact]
  rw [natCast_two_pow]
  rcases signed_cases bits a with ⟨hlow, hsa⟩ | ⟨hhigh, hsa⟩ <;>
    rcases signed_cases bits b with ⟨hlow', hsb⟩ | ⟨hhigh', hsb⟩ <;>
    rcases mod_two_pow_cases bits (2 ^ bits + a - (b + c)) (by omega) with
      ⟨hsum, hmod⟩ | ⟨hsum, hmod⟩ <;>
    rw [hsa, hsb] <;> omega

theorem sub_agrees (hbits : 0 < bits) (ha : a < 2 ^ bits) (hb : b < 2 ^ bits) (borrow : Bool) :
    Agrees bits [.halfCarry, .carry, .overflow, .zero, .sign, .parity] (sub bits a b borrow)
      (.difference bits a b borrow.toNat) := by
  have hborrow := borrow.toNat_le
  have hlt : (2 ^ bits + a - (b + borrow.toNat)) % 2 ^ bits < 2 ^ bits := Nat.mod_lt _ (by omega)
  have hresult : (2 ^ bits + a - (b + borrow.toNat)) % 2 ^ bits =
      (Meaning.difference bits a b borrow.toNat).result := by
    have hexact : (a : Int) - b - borrow.toNat =
        ((2 ^ bits + a - (b + borrow.toNat) : Nat) : Int) - ((2 ^ bits : Nat) : Int) := by omega
    rw [← toNat_natCast_emod]
    simp only [Meaning.difference, Meaning.exact]
    rw [hexact, natCast_two_pow, Int.sub_emod_right]
  have hvalue := agrees_of_result hbits hlt hresult
  rw [sub, Nat.mod_eq_of_lt ha, Nat.mod_eq_of_lt hb]
  refine (((hvalue _ _ _).cons rfl ?_).cons rfl ?_).cons rfl ?_
  · rw [negative_eq hbits ha, negative_eq hbits hb, negative_eq hbits hlt]
    simp only [Bool.and_eq_true, bne_iff_ne, ne_eq, decide_eq_decide]
    exact difference_overflow_iff hbits ha hb hborrow rfl
  · rw [decide_eq_true_eq]
    simp only [Meaning.Sets, Meaning.difference, Meaning.exact]
    rw [natCast_two_pow]
    omega
  · rw [decide_eq_true_eq]
    simp only [Meaning.Sets, Meaning.difference, Meaning.exact]
    omega

/-! ### Bitwise operations -/

theorem logic_agrees (hbits : 0 < bits) {value : Nat} (h : value < 2 ^ bits) :
    Agrees bits [.overflow, .zero, .sign, .parity] (logic bits value) (.logic value) := by
  rw [logic, Nat.mod_eq_of_lt h]
  refine (agrees_of_result hbits h ?_ _ _ _).cons rfl ?_
  · rfl
  · simp only [Bool.false_eq_true, Meaning.Sets, Meaning.logic]

theorem complement_agrees (hbits : 0 < bits) (ha : a < 2 ^ bits) :
    Agrees bits [.carry, .overflow, .zero, .sign, .parity] (complement bits a)
      { Meaning.logic (2 ^ bits - 1 - a) with carry := True } := by
  have hlt : 2 ^ bits - 1 - a < 2 ^ bits := by omega
  rw [complement, Nat.mod_eq_of_lt ha]
  refine ((agrees_of_result hbits hlt ?_ _ _ _).cons rfl ?_).cons rfl ?_
  · rfl
  · simp only [Bool.false_eq_true, Meaning.Sets, Meaning.logic]
  · simp only [Meaning.Sets]

/-! ### Shifts -/

theorem shifted_agrees (hbits : 0 < bits) {value result : Nat} (hlt : value < 2 ^ bits)
    (hvalue : value = result) {carry : Bool} {out : Prop} (hcarry : carry = true ↔ out)
    (half : Option Bool) (halfOut : Prop) :
    Agrees bits [.carry, .overflow, .zero, .sign, .parity] (shifted bits value carry half)
      (.shift bits result out halfOut) := by
  rw [shifted]
  refine ((agrees_of_result hbits hlt hvalue _ _ _).cons rfl ?_).cons rfl hcarry
  rw [negative_eq hbits hlt, bne_iff_ne, ne_eq, Bool.eq_iff_iff, decide_eq_true_eq, hcarry, hvalue]
  rfl

theorem testBit_zero_iff (a : Nat) : a.testBit 0 = true ↔ a % 2 = 1 := by
  rw [Nat.testBit_zero, decide_eq_true_eq]

theorem shiftLeft_agrees (hbits : 0 < bits) (ha : a < 2 ^ bits) :
    Agrees bits [.halfCarry, .carry, .overflow, .zero, .sign, .parity] (shiftLeft bits a)
      (.shift bits (2 * a % 2 ^ bits) (2 ^ (bits - 1) ≤ a) (16 ≤ 2 * (a % 16))) := by
  have hlt : 2 * a % 2 ^ bits < 2 ^ bits := Nat.mod_lt _ (Nat.two_pow_pos bits)
  have hcarry : negative bits a = true ↔ 2 ^ (bits - 1) ≤ a := by
    rw [negative_eq hbits ha, decide_eq_true_eq]
  rw [shiftLeft, Nat.mod_eq_of_lt ha]
  refine (shifted_agrees hbits hlt rfl hcarry _ _).cons rfl ?_
  rw [Nat.testBit_eq_decide_div_mod_eq, decide_eq_true_eq]
  simp only [Meaning.Sets, Meaning.shift]
  omega

theorem shiftRight_agrees (hbits : 0 < bits) (ha : a < 2 ^ bits) :
    Agrees bits [.carry, .overflow, .zero, .sign, .parity] (shiftRight bits a)
      (.shift bits (a / 2) (a % 2 = 1) False) := by
  have hlt : a / 2 < 2 ^ bits := by omega
  rw [shiftRight, Nat.mod_eq_of_lt ha]
  exact shifted_agrees hbits hlt rfl (testBit_zero_iff a) _ _

theorem arithmeticShiftRight_agrees (hbits : 0 < bits) (ha : a < 2 ^ bits) :
    Agrees bits [.carry, .overflow, .zero, .sign, .parity] (arithmeticShiftRight bits a)
      (.shift bits (Meaning.signed bits a / 2 % 2 ^ bits).toNat (a % 2 = 1) False) := by
  have htwo := two_pow_eq hbits
  unfold arithmeticShiftRight
  rw [Nat.mod_eq_of_lt ha]
  dsimp only
  rw [negative_eq hbits ha]
  rcases signed_cases bits a with ⟨hlow, hsigned⟩ | ⟨hhigh, hsigned⟩
  · rw [decide_eq_false (Nat.not_le.2 hlow), hsigned]
    have hresult : a / 2 + false.toNat * 2 ^ (bits - 1) = ((a : Int) / 2 % 2 ^ bits).toNat := by
      have hhalf : (a : Int) / 2 = ((a / 2 : Nat) : Int) := by omega
      rw [hhalf, toNat_natCast_emod, Nat.mod_eq_of_lt (by omega), Bool.toNat_false, Nat.zero_mul,
        Nat.add_zero]
    exact shifted_agrees hbits (by rw [Bool.toNat_false]; omega) hresult (testBit_zero_iff a) _ _
  · rw [decide_eq_true hhigh, hsigned]
    have hlt : a / 2 + true.toNat * 2 ^ (bits - 1) < 2 ^ bits := by rw [Bool.toNat_true]; omega
    have hresult : a / 2 + true.toNat * 2 ^ (bits - 1) =
        (((a : Int) - (2 ^ bits : Nat)) / 2 % 2 ^ bits).toNat := by
      have hhalf : ((a : Int) - (2 ^ bits : Nat)) / 2 =
          ((a / 2 + true.toNat * 2 ^ (bits - 1) : Nat) : Int) - (2 ^ bits : Nat) := by
        rw [Bool.toNat_true]
        omega
      rw [hhalf, ← natCast_two_pow, Int.sub_emod_right, toNat_natCast_emod, Nat.mod_eq_of_lt hlt]
    exact shifted_agrees hbits hlt hresult (testBit_zero_iff a) _ _

theorem rotateRight_agrees (hbits : 0 < bits) (ha : a < 2 ^ bits) (carry : Bool) :
    Agrees bits [.carry, .overflow, .zero, .sign, .parity] (rotateRight bits a carry)
      (.shift bits (a / 2 + carry.toNat * 2 ^ (bits - 1)) (a % 2 = 1) False) := by
  have htwo := two_pow_eq hbits
  have hlt : a / 2 + carry.toNat * 2 ^ (bits - 1) < 2 ^ bits := by
    cases carry
    · rw [Bool.toNat_false]
      omega
    · rw [Bool.toNat_true]
      omega
  rw [rotateRight, Nat.mod_eq_of_lt ha]
  exact shifted_agrees hbits hlt rfl (testBit_zero_iff a) _ _

end Alu

end Microcontroller
