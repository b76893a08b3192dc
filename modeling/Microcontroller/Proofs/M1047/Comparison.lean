import Microcontroller.Proofs.Chip.Effect
import Microcontroller.Proofs.Chip.Exact
import Microcontroller.Proofs.Chip.Fit
import Microcontroller.Proofs.Chip.Place
import Microcontroller.Proofs.M1047.Mnemonic
/-!
# Comparing on the M1047

A comparison subtracts without a borrow and keeps the flags only. They say whether the first word is
below the second as a number (the carry), below it as an integer (the sign, turned over by an overflow),
or the same (the zero flag), for operands of any width and whether the second is a register or an
immediate.
-/

namespace Microcontroller.M1047

open Alu

variable {config : Config} {w : Width} {s : Storage} {row : Instruction} {cells : List Nat}

theorem mem_flags_of_comparison : ∀ row ∈ rows, row.operation = .compare →
    ∀ f ∈ [Flag.zero, .carry, .overflow, .sign], f ∈ row.flags ∧ f ∈ Operation.compare.sets := by
  decide

/-- Comparing register `rd` with the word `b`. -/
theorem execute_comparison (hs : s.Conforms config w instructionSet.statusBits) (hrow : row ∈ rows)
    (hop : row.operation = .compare) {rd b : Nat} (hb : b < 2 ^ w.bits)
    (hchecked : Plan.checkRegisters ⟨row, cells, w⟩ s = .ok ())
    (hrd : Plan.registerIndex ⟨row, cells, w⟩ s .destination = .ok rd)
    (hsecond : Plan.second ⟨row, cells, w⟩ s = .ok b) :
    ∃ s', execute w row.mnemonic cells s = .ok (.ok .next, s') ∧
      Compares w.bits (s'.flag instructionSet.flags) (s.valueAt (.register rd)) b := by
  have hword : s.valueAt (.register rd) < 2 ^ w.bits := hs.registers.getD_lt rd
  let plan := Plan.computing ⟨row, cells, w⟩ rd (sub w.bits (s.valueAt (.register rd)) b false)
  have hplan : Plan.ofOperation ⟨row, cells, w⟩ s instructionSet.flags = .ok plan := by
    simp only [Plan.ofOperation, hop]
    refine Plan.comparison_ok_iff.2 ⟨_, Plan.register_ok_iff.2 ⟨rd, ?_, rfl⟩, b, hsecond, ?_⟩
    · exact Plan.registerIndex_ok_iff.1 hrd
    · simp only [plan, Plan.computing, hop, if_true]
      rfl
  have hfits : plan.Fits config w instructionSet.statusBits := by
    simp only [plan, Plan.computing, hop, if_true]
    exact Plan.fits_of_next (List.forall_mem_nil _)
  have hafter := hs.afterPlan instructionSet.flags.index_lt_statusBits hfits
  refine ⟨_, execute_of_plan hs hrow hchecked hplan, compares_of_sub w.bits_pos hword hb ?_⟩
  intro f hf
  obtain ⟨hdeclared, hset⟩ := mem_flags_of_comparison row hrow hop f hf
  obtain ⟨v, hv, -⟩ := (sub_agrees w.bits_pos hword hb false).flag f hset
  have hroom := hs.status.unit_lt (instructionSet.flags.index_lt_statusBits f)
  rw [flag_eq_bit hafter, hv]
  exact congrArg some (Storage.bit_afterPlan_computing hroom hdeclared hv).symm

/-- `CP` compares two registers, and `CPI` a register with an immediate. -/
theorem execute_compare (hs : s.Conforms config w instructionSet.statusBits) {rd : Nat}
    (hrd : rd < config.registers) :
    (∀ rr < config.registers, ∃ s', execute w "CP" [rd, rr] s = .ok (.ok .next, s') ∧
      Compares w.bits (s'.flag instructionSet.flags) (s.valueAt (.register rd))
        (s.valueAt (.register rr))) ∧
    ∀ k, ∃ s', execute w "CPI" [rd, k] s = .ok (.ok .next, s') ∧
      Compares w.bits (s'.flag instructionSet.flags) (s.valueAt (.register rd)) (k % 2 ^ w.bits) := by
  have hsize : s.registers.size = config.registers := hs.registers.size
  constructor
  · intro rr hrr
    obtain ⟨row, hrow, hmnemonic, hop, hoperands⟩ : ∃ row ∈ rows, row.mnemonic = "CP" ∧
      row.operation = .compare ∧ row.operands = [.destination, .source] := by decide
    rw [← hmnemonic]
    apply execute_comparison hs hrow hop (hs.registers.getD_lt rr)
    · exact checkRegisters_written hoperands (by simp [hsize, hrd, hrr]) (by simp)
    · exact Plan.registerIndex_ok_iff.2 ⟨operand?_written hoperands .destination, hsize ▸ hrd⟩
    · have hsource : Decoded.has ⟨row, [rd, rr], w⟩ .source := has_written hoperands .source
      rw [Plan.second_ok_iff, if_pos hsource]
      exact Plan.register_ok_iff.2 ⟨rr, ⟨operand?_written hoperands .source, hsize ▸ hrr⟩, rfl⟩
  · intro k
    obtain ⟨row, hrow, hmnemonic, hop, hoperands⟩ : ∃ row ∈ rows, row.mnemonic = "CPI" ∧
      row.operation = .compare ∧ row.operands = [.destination, .immediate] := by decide
    have hsource : ¬Decoded.has ⟨row, [rd, k], w⟩ .source := by
      rw [has_written hoperands]
      decide
    rw [← hmnemonic]
    apply execute_comparison hs hrow hop (w.truncate_lt k)
    · exact checkRegisters_written hoperands (by simp [hsize, hrd, OperandKind.isRegister])
        (by simp)
    · exact Plan.registerIndex_ok_iff.2 ⟨operand?_written hoperands .destination, hsize ▸ hrd⟩
    · rw [Plan.second_ok_iff, if_neg hsource]
      exact Plan.immediate_ok_iff.2 ⟨k, operand?_written hoperands .immediate, rfl⟩

/-- Sums and differences of any two numbers, cut down to words, with their flags; the flags of a
difference as a comparison, also as the instructions that compare leave them; and a subtraction as the
inverse of an addition. -/
theorem flags_exact {bits : Nat} (hbits : 0 < bits) (x y : Nat) (carry : Bool) :
    let a := x % 2 ^ bits
    let b := y % 2 ^ bits
    (add bits x y carry).Reports bits (a + b + carry.toNat)
      (Meaning.signed bits a + Meaning.signed bits b + carry.toNat)
      (2 ^ bits ≤ a + b + carry.toNat) (16 ≤ a % 16 + b % 16 + carry.toNat) ∧
    (sub bits x y carry).Reports bits (a - b - carry.toNat)
      (Meaning.signed bits a - Meaning.signed bits b - carry.toNat)
      (a < b + carry.toNat) (a % 16 < b % 16 + carry.toNat) ∧
    (∃ flag, (∀ f ∈ [Flag.zero, .carry, .overflow, .sign],
        (sub bits x y false).flag? f = some (flag f)) ∧ Compares bits flag a b) ∧
    (∀ config w s, Storage.Conforms config w instructionSet.statusBits s → ∀ rd < config.registers,
      (∀ rr < config.registers, ∃ s', execute w "CP" [rd, rr] s = .ok (.ok .next, s') ∧
        Compares w.bits (s'.flag instructionSet.flags) (s.valueAt (.register rd))
          (s.valueAt (.register rr))) ∧
      ∀ k, ∃ s', execute w "CPI" [rd, k] s = .ok (.ok .next, s') ∧
        Compares w.bits (s'.flag instructionSet.flags) (s.valueAt (.register rd))
          (k % 2 ^ w.bits)) ∧
    (sub bits (add bits x y carry).value y carry).value = a := by
  intro a b
  have ha : a < 2 ^ bits := Nat.mod_lt _ (Nat.two_pow_pos bits)
  have hb : b < 2 ^ bits := Nat.mod_lt _ (Nat.two_pow_pos bits)
  have hadd := add_reports hbits ha hb carry
  have hsub := sub_reports hbits ha hb carry
  rw [add_residues] at hadd
  rw [sub_residues] at hsub
  have hcompares := exists_compares hbits ha hb
  rw [sub_residues] at hcompares
  exact ⟨hadd, hsub, hcompares, fun config w s hs rd hrd => execute_compare hs hrd,
    sub_add_value bits x y carry⟩

/-- Words of one bit, in which the sign is the only bit and no carry leaves bit 3; and -128 against 1 in
eight bits, where the difference overflows. -/
theorem flags_exact_narrow :
    let config : Config := { Config.m1047 with registers := 2, ram := 1, rom := 1, mapped := 0 }
    let c := ((Chip.blank instructionSet config .w8 .halt).perform (.setRegister 0 (-128))).perform
      (.setRegister 1 1)
    0 < 1 ∧ (add 1 3 5 true).Reports 1 3 (-1) (2 ≤ 3) (16 ≤ 3) ∧
      ∃ s', execute .w8 "CP" [0, 1] c.storage = .ok (.ok .next, s') ∧
        Compares 8 (s'.flag instructionSet.flags) 0x80 1 := by
  intro config c
  have hnew : Chip.new instructionSet config .halt =
      .ok (Chip.blank instructionSet config .w8 .halt) := rfl
  have hc : Chip.Reachable instructionSet c := .perform _ (.perform _ (.new hnew))
  have hfirst : c.storage.valueAt (.register 0) = 0x80 := by decide +kernel
  have hsecond : c.storage.valueAt (.register 1) = 1 := by decide +kernel
  obtain ⟨hadd, -, -, hcompare, -⟩ := flags_exact Nat.one_pos 3 5 true
  have hcp := (hcompare config .w8 c.storage hc.conforms.storage 0 (by decide)).1 1 (by decide)
  rw [hfirst, hsecond] at hcp
  exact ⟨Nat.one_pos, hadd, hcp⟩

end Microcontroller.M1047
