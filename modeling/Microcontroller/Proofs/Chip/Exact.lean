import Microcontroller.Proofs.Chip.Arithmetic
/-!
# Sums and differences, exactly

What the outcome of a sum or a difference says about the integers behind it. The value is the residue
of the exact result, and the carry is what the value leaves out of it: a sum is its value and a whole
turn for the carry, a difference is its value less a whole turn for the borrow. From these two
equations a subtraction undoes an addition, and the flags of a difference compare its operands.
-/

namespace Microcontroller.Alu

/-- The outcome gives this flag a value, and it is whether `p` holds. -/
def Outcome.Tells (o : Outcome) (f : Flag) (p : Prop) : Prop :=
  ∃ v, o.flag? f = some v ∧ (v = true ↔ p)

/-- Some word of `bits` bits stands for this integer. -/
def InSignedRange (bits : Nat) (x : Int) : Prop := -2 ^ (bits - 1) ≤ x ∧ x ≤ 2 ^ (bits - 1) - 1

/-- An outcome of `bits` bits with the residue of an exact result as its value. Its overflow says that
the integer `signed` is out of range; the carry and the half carry have conditions of their own. -/
structure Outcome.Reports (bits : Nat) (o : Outcome) (exact signed : Int) (carry halfCarry : Prop) :
    Prop where
  value : (o.value : Int) = exact % 2 ^ bits
  zero : o.Tells .zero (o.value = 0)
  sign : o.Tells .sign (2 ^ (bits - 1) ≤ o.value)
  parity : o.Tells .parity (Even ((Finset.range bits).filter fun i => o.value.testBit i).card)
  carry : o.Tells .carry carry
  overflow : o.Tells .overflow (¬InSignedRange bits signed)
  halfCarry : o.Tells .halfCarry halfCarry

/-- An outcome with a word of `bits` bits as its value, and the zero and sign flags that go with it. -/
structure Outcome.OfWord (bits : Nat) (o : Outcome) : Prop where
  lt : o.value < 2 ^ bits
  zero : o.zero = (o.value == 0)
  sign : o.sign = negative bits o.value

/-- The carry or borrow that an outcome hands on. -/
def Outcome.carryOut (o : Outcome) : Bool := o.carry.getD false

variable {bits a b : Nat}

theorem Outcome.Tells.congr {o : Outcome} {f : Flag} {p q : Prop} (h : o.Tells f p) (hpq : p ↔ q) :
    o.Tells f q := by
  obtain ⟨v, hv, hp⟩ := h
  exact ⟨v, hv, hp.trans hpq⟩

theorem not_inSignedRange_iff (bits : Nat) (x : Int) :
    ¬InSignedRange bits x ↔ x < -2 ^ (bits - 1) ∨ 2 ^ (bits - 1) ≤ x := by
  rw [InSignedRange]
  omega

/-- An outcome that agrees with an exact computation reports it. -/
theorem Agrees.reports {o : Outcome} {unsigned signed lowest : Int} {carry halfCarry : Prop}
    (h : Agrees bits [.halfCarry, .carry, .overflow, .zero, .sign, .parity] o
      (.exact bits unsigned signed lowest))
    (hcarry : unsigned < 0 ∨ 2 ^ bits ≤ unsigned ↔ carry)
    (hhalf : lowest < 0 ∨ 16 ≤ lowest ↔ halfCarry) :
    o.Reports bits unsigned signed carry halfCarry := by
  have htells : ∀ f ∈ [Flag.halfCarry, .carry, .overflow, .zero, .sign, .parity],
      o.Tells f ((Meaning.exact bits unsigned signed lowest).Sets bits f) := h.flag
  have hvalue := h.value
  have hnonneg : 0 ≤ unsigned % 2 ^ bits := Int.emod_nonneg _ (by positivity)
  exact {
    value := by
      rw [hvalue]
      exact Int.toNat_of_nonneg hnonneg
    zero := hvalue ▸ htells .zero (by decide)
    sign := hvalue ▸ htells .sign (by decide)
    parity := hvalue ▸ htells .parity (by decide)
    carry := (htells .carry (by decide)).congr hcarry
    overflow := (htells .overflow (by decide)).congr (not_inSignedRange_iff bits signed).symm
    halfCarry := (htells .halfCarry (by decide)).congr hhalf }

theorem Outcome.Reports.exists_flag {o : Outcome} {exact signed : Int} {carry halfCarry : Prop}
    (h : o.Reports bits exact signed carry halfCarry) :
    ∀ f ∈ [Flag.carry, .overflow, .sign], ∃ v, o.flag? f = some v := by
  obtain ⟨c, hc, -⟩ := h.carry
  obtain ⟨v, hv, -⟩ := h.overflow
  exact List.forall_mem_cons.2 ⟨⟨c, hc⟩, List.forall_mem_cons.2 ⟨⟨v, hv⟩,
    List.forall_mem_singleton.2 ⟨o.sign, rfl⟩⟩⟩

/-! ### Operands of any size -/

/-- An addition sees its operands modulo the word. -/
theorem add_residues (bits a b : Nat) (carry : Bool) :
    add bits (a % 2 ^ bits) (b % 2 ^ bits) carry = add bits a b carry := by
  simp only [add, Nat.mod_mod]

theorem sub_residues (bits a b : Nat) (borrow : Bool) :
    sub bits (a % 2 ^ bits) (b % 2 ^ bits) borrow = sub bits a b borrow := by
  simp only [sub, Nat.mod_mod]

theorem add_reports (hbits : 0 < bits) (ha : a < 2 ^ bits) (hb : b < 2 ^ bits) (carry : Bool) :
    (add bits a b carry).Reports bits (a + b + carry.toNat)
      (Meaning.signed bits a + Meaning.signed bits b + carry.toNat)
      (2 ^ bits ≤ a + b + carry.toNat) (16 ≤ a % 16 + b % 16 + carry.toNat) := by
  apply Agrees.reports (add_agrees hbits ha hb carry)
  · rw [natCast_two_pow]
    omega
  · omega

theorem sub_reports (hbits : 0 < bits) (ha : a < 2 ^ bits) (hb : b < 2 ^ bits) (borrow : Bool) :
    (sub bits a b borrow).Reports bits (a - b - borrow.toNat)
      (Meaning.signed bits a - Meaning.signed bits b - borrow.toNat)
      (a < b + borrow.toNat) (a % 16 < b % 16 + borrow.toNat) := by
  apply Agrees.reports (sub_agrees hbits ha hb borrow)
  · rw [natCast_two_pow]
    omega
  · omega

/-! ### The carry completes the value -/

theorem add_ofWord (bits a b : Nat) (carry : Bool) : (add bits a b carry).OfWord bits where
  lt := Nat.mod_lt _ (Nat.two_pow_pos bits)
  zero := rfl
  sign := rfl

theorem sub_ofWord (bits a b : Nat) (borrow : Bool) : (sub bits a b borrow).OfWord bits where
  lt := Nat.mod_lt _ (Nat.two_pow_pos bits)
  zero := rfl
  sign := rfl

theorem add_exact (ha : a < 2 ^ bits) (hb : b < 2 ^ bits) (carry : Bool) :
    (add bits a b carry).value + 2 ^ bits * (add bits a b carry).carryOut.toNat =
      a + b + carry.toNat := by
  have hcarry := carry.toNat_le
  have hvalue : (add bits a b carry).value = (a + b + carry.toNat) % 2 ^ bits := by
    simp only [add, Outcome.of, Nat.mod_eq_of_lt ha, Nat.mod_eq_of_lt hb]
  have hout : (add bits a b carry).carryOut = decide (2 ^ bits ≤ a + b + carry.toNat) := by
    simp only [add, Outcome.of, Outcome.carryOut, Option.getD_some, Nat.mod_eq_of_lt ha,
      Nat.mod_eq_of_lt hb]
  rw [hvalue, hout]
  rcases mod_two_pow_cases bits (a + b + carry.toNat) (by omega) with ⟨hsum, hmod⟩ | ⟨hsum, hmod⟩
  · simp only [hmod, Nat.not_le.2 hsum, decide_false, Bool.toNat_false]
    omega
  · simp only [hmod, hsum, decide_true, Bool.toNat_true]
    omega

theorem sub_exact (ha : a < 2 ^ bits) (hb : b < 2 ^ bits) (borrow : Bool) :
    ((sub bits a b borrow).value : Int) - 2 ^ bits * (sub bits a b borrow).carryOut.toNat =
      a - b - borrow.toNat := by
  have hborrow := borrow.toNat_le
  have hvalue : (sub bits a b borrow).value =
      (2 ^ bits + a - (b + borrow.toNat)) % 2 ^ bits := by
    simp only [sub, Outcome.of, Nat.mod_eq_of_lt ha, Nat.mod_eq_of_lt hb]
  have hout : (sub bits a b borrow).carryOut = decide (a < b + borrow.toNat) := by
    simp only [sub, Outcome.of, Outcome.carryOut, Option.getD_some, Nat.mod_eq_of_lt ha,
      Nat.mod_eq_of_lt hb]
  rw [hvalue, hout, natCast_two_pow]
  rcases mod_two_pow_cases bits (2 ^ bits + a - (b + borrow.toNat)) (by omega) with
    ⟨hsum, hmod⟩ | ⟨hsum, hmod⟩
  · have hlt : a < b + borrow.toNat := by omega
    simp only [hmod, hlt, decide_true, Bool.toNat_true]
    omega
  · have hle : ¬a < b + borrow.toNat := by omega
    simp only [hmod, hle, decide_false, Bool.toNat_false]
    omega

/-- Only one word and one carry give the same sum. -/
theorem eq_of_carry {n v w : Nat} {c d : Bool} (hv : v < n) (hw : w < n)
    (h : v + n * c.toNat = w + n * d.toNat) : v = w ∧ c = d := by
  cases c <;> cases d <;>
    simp only [Bool.toNat_true, Bool.toNat_false, Nat.mul_one, Nat.mul_zero, Nat.add_zero] at h <;>
    simp only [and_true, reduceCtorEq, and_false] <;>
    omega

theorem eq_of_borrow {n v w : Nat} {c d : Bool} (hv : v < n) (hw : w < n)
    (h : (v : Int) - n * c.toNat = w - n * d.toNat) : v = w ∧ c = d := by
  have hswapped : v + n * d.toNat = w + n * c.toNat := by omega
  obtain ⟨hvw, hdc⟩ := eq_of_carry hv hw hswapped
  exact ⟨hvw, hdc.symm⟩

/-- Subtracting what was added, with the carry as the borrow, gives back the first operand. -/
theorem sub_add_value (bits a b : Nat) (carry : Bool) :
    (sub bits (add bits a b carry).value b carry).value = a % 2 ^ bits := by
  have ha : a % 2 ^ bits < 2 ^ bits := Nat.mod_lt _ (Nat.two_pow_pos bits)
  have hb : b % 2 ^ bits < 2 ^ bits := Nat.mod_lt _ (Nat.two_pow_pos bits)
  have hsum := (add_ofWord bits a b carry).lt
  have hadd := add_exact ha hb carry
  have hsub := sub_exact hsum hb carry
  rw [add_residues] at hadd
  rw [← Nat.mod_eq_of_lt hsum, sub_residues, Nat.mod_eq_of_lt hsum, natCast_two_pow] at hsub
  -- Both are words, and by the two equations they differ by a multiple of a whole turn.
  have hturns : (sub bits (add bits a b carry).value b carry).value +
      2 ^ bits * (add bits a b carry).carryOut.toNat = a % 2 ^ bits +
      2 ^ bits * (sub bits (add bits a b carry).value b carry).carryOut.toNat := by
    omega
  exact (eq_of_carry (sub_ofWord bits _ b carry).lt ha hturns).1

/-! ### Comparing -/

/-- Flags that say how two words of `bits` bits compare, as numbers and as the integers they stand
for. -/
structure Compares (bits : Nat) (flag : Flag → Bool) (a b : Nat) : Prop where
  lt : flag .carry = true ↔ a < b
  signed_lt : (flag .sign ^^ flag .overflow) = true ↔ Meaning.signed bits a < Meaning.signed bits b
  eq : flag .zero = true ↔ a = b

/-- A difference is exact, or it has gone around. -/
theorem sub_value_cases (ha : a < 2 ^ bits) (hb : b < 2 ^ bits) :
    (sub bits a b false).value + b = a ∨ (sub bits a b false).value + b = 2 ^ bits + a := by
  have hexact := sub_exact ha hb false
  rw [natCast_two_pow, Bool.toNat_false] at hexact
  cases hout : (sub bits a b false).carryOut
  · left
    rw [hout, Bool.toNat_false] at hexact
    omega
  · right
    rw [hout, Bool.toNat_true] at hexact
    omega

/-- The flags of a difference compare its operands. The sign says which integer is the lesser one, but
for an overflow, which turns it over. -/
theorem compares_of_sub (hbits : 0 < bits) (ha : a < 2 ^ bits) (hb : b < 2 ^ bits)
    {flag : Flag → Bool} (hflag : ∀ f ∈ [Flag.zero, .carry, .overflow, .sign],
      (sub bits a b false).flag? f = some (flag f)) : Compares bits flag a b := by
  have htwo := two_pow_eq hbits
  have hlt := (sub_ofWord bits a b false).lt
  have hvalue := sub_value_cases ha hb
  have hreports := sub_reports hbits ha hb false
  have htells {f : Flag} {p : Prop} (hf : f ∈ [Flag.zero, .carry, .overflow, .sign])
      (h : (sub bits a b false).Tells f p) : flag f = true ↔ p := by
    obtain ⟨v, hv, hp⟩ := h
    cases (hflag f hf).symm.trans hv
    exact hp
  have hzero := htells (by decide) hreports.zero
  have hcarry := htells (by decide) hreports.carry
  have hsign := htells (by decide) hreports.sign
  have hoverflow := htells (by decide) hreports.overflow
  rw [not_inSignedRange_iff, natCast_two_pow, Bool.toNat_false] at hoverflow
  refine ⟨hcarry, ?_, by rw [hzero]; omega⟩
  rw [Bool.xor_iff_ne, ne_eq, Bool.eq_iff_iff, hsign, hoverflow]
  rcases signed_cases bits a with ⟨hlow, hsa⟩ | ⟨hhigh, hsa⟩ <;>
    rcases signed_cases bits b with ⟨hlow', hsb⟩ | ⟨hhigh', hsb⟩ <;>
    rw [hsa, hsb] <;> omega

/-- A difference has flags that compare. -/
theorem exists_compares (hbits : 0 < bits) (ha : a < 2 ^ bits) (hb : b < 2 ^ bits) :
    ∃ flag, (∀ f ∈ [Flag.zero, .carry, .overflow, .sign],
      (sub bits a b false).flag? f = some (flag f)) ∧ Compares bits flag a b := by
  have hreports := sub_reports hbits ha hb false
  have hflag : ∀ f ∈ [Flag.zero, .carry, .overflow, .sign],
      (sub bits a b false).flag? f = some (((sub bits a b false).flag? f).getD false) := by
    intro f hf
    obtain ⟨v, hv⟩ : ∃ v, (sub bits a b false).flag? f = some v := by
      rcases List.mem_cons.1 hf with rfl | hf
      · exact ⟨_, rfl⟩
      · exact hreports.exists_flag f hf
    rw [hv, Option.getD_some]
  exact ⟨_, hflag, compares_of_sub hbits ha hb hflag⟩

end Microcontroller.Alu
