import Microcontroller.Isa.M1047
import Microcontroller.Proofs.Chip.Demand
import Microcontroller.Proofs.Chip.Fetch
/-!
# The table of the M1047

Facts about the 47 rows that the theory of the family rests on. Opcodes are places in the table, no
row asks for an operand twice or lacks one, and what a mnemonic says about operands is what the
operation of its row does with them.
-/

namespace Microcontroller.M1047

theorem opcode_get : ∀ i : Fin rows.length, (rows.get i).opcode.toNat = i := by decide

/-- The row of an opcode is found by counting. -/
theorem rowOf?_eq (cell : Nat) : table.rowOf? cell = rows[cell]? := by
  rw [InstructionTable.rowOf?]
  by_cases hcell : cell < rows.length
  · rw [List.getElem?_eq_getElem hcell, List.find?_eq_some_iff_getElem]
    refine ⟨beq_iff_eq.2 (opcode_get ⟨cell, hcell⟩), cell, hcell, rfl, ?_⟩
    -- The rows before this one have smaller opcodes, so the search goes past them.
    intro j hj
    have hopcode : (rows.get ⟨j, Nat.lt_trans hj hcell⟩).opcode.toNat = j := opcode_get _
    have hne : j ≠ cell := Nat.ne_of_lt hj
    rw [Bool.not_eq_true', beq_eq_false_iff_ne]
    exact fun heq => hne (hopcode.symm.trans heq)
  · rw [List.getElem?_eq_none (Nat.le_of_not_lt hcell), List.find?_eq_none]
    intro row hrow heq
    obtain ⟨i, rfl⟩ := List.get_of_mem hrow
    have hopcode := opcode_get i
    have hlt := i.isLt
    rw [beq_iff_eq] at heq
    change i < rows.length at hlt
    change (rows.get i).opcode.toNat = cell at heq
    omega

theorem rows_complete : ∀ row ∈ rows, row.Complete := by decide

theorem operands_nodup : ∀ row ∈ rows, row.operands.Nodup := by decide

theorem statusBits_eq : instructionSet.statusBits = 16 := by decide

end Microcontroller.M1047
