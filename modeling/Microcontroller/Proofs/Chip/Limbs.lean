import Mathlib.Data.Nat.Digits.Lemmas
import Mathlib.Tactic.LinearCombination
import Microcontroller.Proofs.Chip.Exact
/-!
# Arithmetic in limbs

A sum or a difference of wide numbers can be computed limb by limb, from the lowest, if each limb is
given the carry of the one before. The reason is that a single wide operation splits: its value is
that of the low part with that of the high part above it, and the carry, the sign and the overflow are
those of the high part. A chain of any number of limbs therefore says at its end what one operation of
the full width says.
-/

namespace Microcontroller.Alu

/-- Two outcomes that agree in the flags that the top of a number decides. -/
structure Outcome.SameTop (o wide : Outcome) : Prop where
  sign : o.sign = wide.sign
  carry : o.carry = wide.carry
  overflow : o.overflow = wide.overflow

theorem Outcome.SameTop.trans {o o' wide : Outcome} (h : o.SameTop o') (h' : o'.SameTop wide) :
    o.SameTop wide :=
  ⟨h.sign.trans h'.sign, h.carry.trans h'.carry, h.overflow.trans h'.overflow⟩

theorem Outcome.SameTop.flag?_eq {o wide : Outcome} (h : o.SameTop wide) :
    ∀ f ∈ [Flag.carry, .overflow, .sign], o.flag? f = wide.flag? f := by
  simp [Outcome.flag?, h.sign, h.carry, h.overflow]

theorem Outcome.SameTop.tells {o wide : Outcome} (h : o.SameTop wide) {f : Flag} {p : Prop}
    (hf : f ∈ [Flag.carry, .overflow, .sign]) (hp : wide.Tells f p) : o.Tells f p := by
  rwa [Outcome.Tells, h.flag?_eq f hf]

/-- A wide outcome is put together from the outcome of its low `m` bits and that of the bits above. -/
structure Outcome.Joins (m : Nat) (low high wide : Outcome) : Prop where
  value : wide.value = low.value + 2 ^ m * high.value
  zero : wide.zero = (low.zero && high.zero)
  top : high.SameTop wide

/-- An operation that can be carried out on the low bits first, and then with the carry on the high
bits. -/
def Splits (op : Nat → Nat → Nat → Bool → Outcome) : Prop :=
  ∀ m k a b a' b' carry, 0 < k → a < 2 ^ m → b < 2 ^ m → a' < 2 ^ k → b' < 2 ^ k →
    Outcome.Joins m (op m a b carry) (op k a' b' (op m a b carry).carryOut)
      (op (m + k) (a + 2 ^ m * a') (b + 2 ^ m * b') carry)

/-- The outcomes of an operation limb by limb, each with the carry of the one before. -/
def chain (op : Nat → Nat → Bool → Outcome) : Bool → List (Nat × Nat) → List Outcome
  | _, [] => []
  | carry, (a, b) :: rest => op a b carry :: chain op (op a b carry).carryOut rest

/-- One operation of the full width, on the numbers that the limbs make. -/
def whole (op : Nat → Nat → Nat → Bool → Outcome) (bits : Nat) (carry : Bool)
    (limbs : List (Nat × Nat)) : Outcome :=
  op (bits * limbs.length) (Nat.ofDigits (2 ^ bits) (limbs.map Prod.fst))
    (Nat.ofDigits (2 ^ bits) (limbs.map Prod.snd)) carry

/-- What the outcomes of `n` limbs say together: their values are the limbs of `number`, and the last
of them has the carry, the sign and the overflow of the whole. -/
structure Outcome.Chained (bits n : Nat) (outcomes : List Outcome) (number : Nat) (carryOut : Bool)
    (signed : Int) : Prop where
  length : outcomes.length = n
  limb : ∀ o ∈ outcomes, o.value < 2 ^ bits
  joined : Nat.ofDigits (2 ^ bits) (outcomes.map (·.value)) = number
  last : ∃ o, outcomes.getLast? = some o ∧ o.carry = some carryOut ∧
    o.Tells .sign (Meaning.signed (bits * n) number < 0) ∧
    o.Tells .overflow (¬InSignedRange (bits * n) signed)

variable {bits m k : Nat}

/-! ### Two parts of a number -/

theorem join_lt {low high : Nat} (hlow : low < 2 ^ m) (hhigh : high < 2 ^ k) :
    low + 2 ^ m * high < 2 ^ (m + k) := by
  rw [Nat.pow_add]
  calc low + 2 ^ m * high < 2 ^ m + 2 ^ m * high := by omega
    _ = 2 ^ m * (high + 1) := by rw [Nat.mul_succ, Nat.add_comm]
    _ ≤ 2 ^ m * 2 ^ k := Nat.mul_le_mul_left _ hhigh

theorem join_eq_zero (low high : Nat) :
    (low + 2 ^ m * high == 0) = ((low == 0) && (high == 0)) := by
  have hpos := Nat.two_pow_pos m
  rw [Bool.eq_iff_iff, Bool.and_eq_true, beq_iff_eq, beq_iff_eq, beq_iff_eq, Nat.add_eq_zero_iff,
    Nat.mul_eq_zero]
  omega

/-- The sign of a number is that of its high part. -/
theorem negative_join {low : Nat} (hk : 0 < k) (hlow : low < 2 ^ m) (high : Nat) :
    negative (m + k) (low + 2 ^ m * high) = negative k high := by
  have hindex : m + k - 1 - m = k - 1 := by omega
  rw [negative, negative, Nat.add_comm low, Nat.testBit_two_pow_mul_add high hlow, hindex,
    if_neg (by omega)]

theorem add_overflow_eq {a b : Nat} (ha : a < 2 ^ bits) (hb : b < 2 ^ bits) (carry : Bool) :
    (add bits a b carry).overflow = some
      ((negative bits a != (add bits a b carry).sign) &&
        (negative bits b != (add bits a b carry).sign)) := by
  simp only [add, Outcome.of, Nat.mod_eq_of_lt ha, Nat.mod_eq_of_lt hb]

theorem sub_overflow_eq {a b : Nat} (ha : a < 2 ^ bits) (hb : b < 2 ^ bits) (borrow : Bool) :
    (sub bits a b borrow).overflow = some
      ((negative bits a != negative bits b) &&
        (negative bits a != (sub bits a b borrow).sign)) := by
  simp only [sub, Outcome.of, Nat.mod_eq_of_lt ha, Nat.mod_eq_of_lt hb]

/-- Zero and sign of a joined value. -/
theorem zero_sign_of_join {low high wide : Outcome} (hk : 0 < k) (hlow : low.OfWord m)
    (hhigh : high.OfWord k) (hwide : wide.OfWord (m + k))
    (hvalue : wide.value = low.value + 2 ^ m * high.value) :
    wide.zero = (low.zero && high.zero) ∧ wide.sign = high.sign := by
  constructor
  · rw [hwide.zero, hlow.zero, hhigh.zero, hvalue, join_eq_zero]
  · rw [hwide.sign, hhigh.sign, hvalue, negative_join hk hlow.lt]

theorem add_splits : Splits add := by
  intro m k a b a' b' carry hk ha hb ha' hb'
  have hlow := add_ofWord m a b carry
  have hhigh := add_ofWord k a' b' (add m a b carry).carryOut
  have hwide := add_ofWord (m + k) (a + 2 ^ m * a') (b + 2 ^ m * b') carry
  -- The equations for the parts make one for the whole, and only one value and one carry satisfy it.
  have hparts : a + 2 ^ m * a' + (b + 2 ^ m * b') + carry.toNat =
      (add m a b carry).value + 2 ^ m * (add k a' b' (add m a b carry).carryOut).value +
        2 ^ (m + k) * (add k a' b' (add m a b carry).carryOut).carryOut.toNat := by
    symm
    linear_combination
      add_exact ha hb carry + 2 ^ m * add_exact ha' hb' (add m a b carry).carryOut
  have hwhole := add_exact (join_lt ha ha') (join_lt hb hb') carry
  obtain ⟨hvalue, hcarry⟩ :=
    eq_of_carry hwide.lt (join_lt hlow.lt hhigh.lt) (hwhole.trans hparts)
  obtain ⟨hzero, hsign⟩ := zero_sign_of_join hk hlow hhigh hwide hvalue
  refine ⟨hvalue, hzero, hsign.symm, congrArg some hcarry.symm, ?_⟩
  rw [add_overflow_eq ha' hb', add_overflow_eq (join_lt ha ha') (join_lt hb hb'), hsign,
    negative_join hk ha, negative_join hk hb]

theorem sub_splits : Splits sub := by
  intro m k a b a' b' borrow hk ha hb ha' hb'
  have hlow := sub_ofWord m a b borrow
  have hhigh := sub_ofWord k a' b' (sub m a b borrow).carryOut
  have hwide := sub_ofWord (m + k) (a + 2 ^ m * a') (b + 2 ^ m * b') borrow
  have hparts : (((a + 2 ^ m * a' : Nat) : Int) - (b + 2 ^ m * b' : Nat) - borrow.toNat) =
      (sub m a b borrow).value + 2 ^ m * (sub k a' b' (sub m a b borrow).carryOut).value -
        2 ^ (m + k) * (sub k a' b' (sub m a b borrow).carryOut).carryOut.toNat := by
    push_cast
    linear_combination
      -sub_exact ha hb borrow - 2 ^ m * sub_exact ha' hb' (sub m a b borrow).carryOut
  have hwhole := (sub_exact (join_lt ha ha') (join_lt hb hb') borrow).trans hparts
  obtain ⟨hvalue, hcarry⟩ :=
    eq_of_borrow hwide.lt (join_lt hlow.lt hhigh.lt) (by exact_mod_cast hwhole)
  obtain ⟨hzero, hsign⟩ := zero_sign_of_join hk hlow hhigh hwide hvalue
  refine ⟨hvalue, hzero, hsign.symm, congrArg some hcarry.symm, ?_⟩
  rw [sub_overflow_eq ha' hb', sub_overflow_eq (join_lt ha ha') (join_lt hb hb'), hsign,
    negative_join hk ha, negative_join hk hb]

/-- The low part of a joined value. -/
theorem Outcome.Joins.mod_eq {low high wide : Outcome} (h : Outcome.Joins m low high wide)
    (hlow : low.OfWord m) : wide.value % 2 ^ m = low.value := by
  rw [h.value, Nat.add_mul_mod_self_left, Nat.mod_eq_of_lt hlow.lt]

theorem Outcome.Joins.div_eq {low high wide : Outcome} (h : Outcome.Joins m low high wide)
    (hlow : low.OfWord m) : wide.value / 2 ^ m = high.value := by
  rw [h.value, Nat.add_mul_div_left _ _ (Nat.two_pow_pos m), Nat.div_eq_of_lt hlow.lt, Nat.zero_add]

/-! ### Any number of limbs -/

section

variable {op : Nat → Nat → Nat → Bool → Outcome} {limbs : List (Nat × Nat)}

theorem chain_length (op : Nat → Nat → Bool → Outcome) (carry : Bool) (limbs : List (Nat × Nat)) :
    (chain op carry limbs).length = limbs.length := by
  induction limbs generalizing carry with
  | nil => rfl
  | cons limb rest ih => simp [chain, ih]

theorem forall_mem_chain {op : Nat → Nat → Bool → Outcome} {p : Outcome → Prop}
    (h : ∀ a b carry, p (op a b carry)) (carry : Bool) (limbs : List (Nat × Nat)) :
    ∀ o ∈ chain op carry limbs, p o := by
  induction limbs generalizing carry with
  | nil => simp [chain]
  | cons limb rest ih => exact List.forall_mem_cons.2 ⟨h _ _ _, ih _⟩

theorem ofDigits_lt {digits : List Nat} (hbits : 0 < bits) (h : ∀ d ∈ digits, d < 2 ^ bits) :
    Nat.ofDigits (2 ^ bits) digits < 2 ^ (bits * digits.length) := by
  rw [Nat.pow_mul]
  exact Nat.ofDigits_lt_base_pow_length (Nat.one_lt_two_pow (Nat.ne_of_gt hbits)) h

theorem ofDigits_map_lt (hbits : 0 < bits) {part : Nat × Nat → Nat}
    (h : ∀ limb ∈ limbs, part limb < 2 ^ bits) :
    Nat.ofDigits (2 ^ bits) (limbs.map part) < 2 ^ (bits * limbs.length) := by
  have hlt := ofDigits_lt hbits (List.forall_mem_map.2 h)
  rwa [List.length_map] at hlt

theorem whole_singleton (op : Nat → Nat → Nat → Bool → Outcome) (bits a b : Nat) (carry : Bool) :
    whole op bits carry [(a, b)] = op bits a b carry := by
  simp [whole]

/-- The lowest limb can be split off. -/
theorem whole_cons (hop : Splits op) (hbits : 0 < bits) (hne : limbs ≠ []) {a b : Nat}
    (ha : a < 2 ^ bits) (hb : b < 2 ^ bits)
    (hlimbs : ∀ limb ∈ limbs, limb.1 < 2 ^ bits ∧ limb.2 < 2 ^ bits) (carry : Bool) :
    Outcome.Joins bits (op bits a b carry) (whole op bits (op bits a b carry).carryOut limbs)
      (whole op bits carry ((a, b) :: limbs)) := by
  have hlength : 0 < bits * limbs.length := Nat.mul_pos hbits (List.length_pos_of_ne_nil hne)
  have hjoins := hop bits (bits * limbs.length) a b _ _ carry hlength ha hb
    (ofDigits_map_lt hbits fun limb hmem => (hlimbs limb hmem).1)
    (ofDigits_map_lt hbits fun limb hmem => (hlimbs limb hmem).2)
  have hwidth : bits * (limbs.length + 1) = bits + bits * limbs.length := by ring
  simp only [whole, List.map_cons, Nat.ofDigits_cons, List.length_cons, hwidth]
  exact hjoins

/-- A chain of limbs gives the limbs of what one operation of the full width gives, and ends with its
flags. -/
theorem chain_eq_whole (hop : Splits op) (hbits : 0 < bits) (hne : limbs ≠ [])
    (hlimbs : ∀ limb ∈ limbs, limb.1 < 2 ^ bits ∧ limb.2 < 2 ^ bits) (carry : Bool) :
    Nat.ofDigits (2 ^ bits) ((chain (op bits) carry limbs).map (·.value)) =
        (whole op bits carry limbs).value ∧
      ∃ o, (chain (op bits) carry limbs).getLast? = some o ∧
        o.SameTop (whole op bits carry limbs) := by
  induction limbs generalizing carry with
  | nil => exact absurd rfl hne
  | cons limb rest ih =>
    obtain ⟨a, b⟩ := limb
    obtain ⟨⟨ha, hb⟩, hrest⟩ := List.forall_mem_cons.1 hlimbs
    by_cases hlast : rest = []
    · subst hlast
      rw [whole_singleton]
      refine ⟨?_, _, rfl, rfl, rfl, rfl⟩
      simp only [chain, List.map_cons, List.map_nil, Nat.ofDigits_singleton]
    · obtain ⟨hvalue, o, ho, htop⟩ := ih hlast hrest (op bits a b carry).carryOut
      have hjoins := whole_cons hop hbits hlast ha hb hrest carry
      refine ⟨?_, o, ?_, htop.trans hjoins.top⟩
      · simp only [chain, List.map_cons, Nat.ofDigits_cons]
        rw [hvalue, hjoins.value]
      · rw [chain, List.getLast?_cons, ho]
        rfl

/-- A chain says what the one wide operation reports. -/
theorem Outcome.Reports.chained {exact signed : Int} {carried halfCarry : Prop} {carry : Bool}
    (hop : Splits op) (hword : ∀ bits a b carry, (op bits a b carry).OfWord bits) (hbits : 0 < bits)
    (hne : limbs ≠ []) (hlimbs : ∀ limb ∈ limbs, limb.1 < 2 ^ bits ∧ limb.2 < 2 ^ bits)
    (h : (whole op bits carry limbs).Reports (bits * limbs.length) exact signed carried halfCarry) :
    Chained bits limbs.length (chain (op bits) carry limbs) (whole op bits carry limbs).value
      (whole op bits carry limbs).carryOut signed := by
  obtain ⟨hjoined, o, ho, htop⟩ := chain_eq_whole hop hbits hne hlimbs carry
  have hlt : (whole op bits carry limbs).value < 2 ^ (bits * limbs.length) := (hword _ _ _ _).lt
  have hnegative : 2 ^ (bits * limbs.length - 1) ≤ (whole op bits carry limbs).value ↔
      Meaning.signed (bits * limbs.length) (whole op bits carry limbs).value < 0 := by
    rcases signed_cases (bits * limbs.length) (whole op bits carry limbs).value with
      ⟨hlow, hs⟩ | ⟨hhigh, hs⟩ <;> rw [hs] <;> omega
  have hcarry : (whole op bits carry limbs).carry = some (whole op bits carry limbs).carryOut := by
    obtain ⟨v, hv, -⟩ := h.carry
    have hv : (whole op bits carry limbs).carry = some v := hv
    rw [Outcome.carryOut, hv, Option.getD_some]
  exact {
    length := chain_length _ _ _
    limb := forall_mem_chain (fun a b carry => (hword bits a b carry).lt) carry limbs
    joined := hjoined
    last := ⟨o, ho, htop.carry.trans hcarry, htop.tells (by decide) (h.sign.congr hnegative),
      htop.tells (by decide) h.overflow⟩ }

end

/-- Sums and differences of numbers of any number of limbs, computed limb by limb with the carry or the
borrow handed on. -/
theorem chains_exact (hbits : 0 < bits) {limbs : List (Nat × Nat)} (hne : limbs ≠ [])
    (hlimbs : ∀ limb ∈ limbs, limb.1 < 2 ^ bits ∧ limb.2 < 2 ^ bits) (carry : Bool) :
    let n := limbs.length
    let a := Nat.ofDigits (2 ^ bits) (limbs.map Prod.fst)
    let b := Nat.ofDigits (2 ^ bits) (limbs.map Prod.snd)
    (∃ sum out, Outcome.Chained bits n (chain (add bits) carry limbs) sum out
        (Meaning.signed (bits * n) a + Meaning.signed (bits * n) b + carry.toNat) ∧
      sum + 2 ^ (bits * n) * out.toNat = a + b + carry.toNat) ∧
    ∃ difference out, Outcome.Chained bits n (chain (sub bits) carry limbs) difference out
        (Meaning.signed (bits * n) a - Meaning.signed (bits * n) b - carry.toNat) ∧
      (difference : Int) - 2 ^ (bits * n) * out.toNat = a - b - carry.toNat := by
  intro n a b
  have hwidth : 0 < bits * n := Nat.mul_pos hbits (List.length_pos_of_ne_nil hne)
  have ha : a < 2 ^ (bits * n) := ofDigits_map_lt hbits fun limb hmem => (hlimbs limb hmem).1
  have hb : b < 2 ^ (bits * n) := ofDigits_map_lt hbits fun limb hmem => (hlimbs limb hmem).2
  refine ⟨⟨_, _, ?_, add_exact ha hb carry⟩, ⟨_, _, ?_, sub_exact ha hb carry⟩⟩
  · exact (add_reports hwidth ha hb carry).chained add_splits add_ofWord hbits hne hlimbs
  · exact (sub_reports hwidth ha hb carry).chained sub_splits sub_ofWord hbits hne hlimbs

/-- A carry that goes through a limb already full, up to the sign of the number. -/
theorem chains_exact_full :
    let limbs := [(2 ^ 64 - 1, 2 ^ 64 - 1), (2 ^ 63 - 1, 0)]
    (chain (add 64) true limbs).map (·.value) = [2 ^ 64 - 1, 2 ^ 63] ∧
      ∃ sum out, Outcome.Chained 64 2 (chain (add 64) true limbs) sum out
        (Meaning.signed 128 (2 ^ 127 - 1) + Meaning.signed 128 (2 ^ 64 - 1) + 1) ∧
      sum + 2 ^ 128 * out.toNat = (2 ^ 127 - 1) + (2 ^ 64 - 1) + 1 := by
  intro limbs
  have hvalues : (chain (add 64) true limbs).map (·.value) = [2 ^ 64 - 1, 2 ^ 63] := by
    decide +kernel
  have hne : limbs ≠ [] := by decide
  exact ⟨hvalues, (chains_exact (by decide) hne (by decide) true).1⟩

end Microcontroller.Alu
