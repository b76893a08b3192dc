import Microcontroller.Proofs.Chip.Cycle
import Microcontroller.Proofs.M1047.Table
/-!
# Operands of the row at the instruction pointer

On a chip of the family a row is fetched with all of its operands, and the operand of a kind is the
cell as many places after the opcode as the kind stands in the row.
-/

namespace Microcontroller.M1047

variable {c : Chip} {row : Instruction}

theorem rowAt?_eq_some_iff (hset : c.instructions = instructionSet) {address : Nat}
    {row : Instruction} : c.rowAt? address = some row ↔
      ∃ cell, c.program[address]? = some cell ∧ rows[cell]? = some row := by
  rw [Chip.rowAt?, hset, Option.bind_eq_some_iff]
  exact exists_congr fun cell => and_congr_right fun _ => by rw [← rowOf?_eq]; rfl

section

variable (hrow : row ∈ rows) (hsize : c.storage.ip + row.size ≤ c.program.size)

include hrow hsize

theorem decodedAs_complete : (c.decodedAs row).Complete :=
  ⟨c.length_operandsAt hsize, rows_complete row hrow⟩

theorem operand?_iff {kind : OperandKind} {x : Nat} :
    (c.decodedAs row).operand? kind = some x ↔ (kind, x) ∈ (c.decodedAs row).fields :=
  (decodedAs_complete hrow hsize).operand?_eq_some_iff (operands_nodup row hrow)

/-- What holds of one operand of a row at the instruction pointer holds of all of its kind. -/
theorem exists_operand?_iff {kind : OperandKind} (hkind : kind ∈ row.operands) {P : Nat → Prop} :
    (∃ x, (c.decodedAs row).operand? kind = some x ∧ P x) ↔
      ∀ x, (kind, x) ∈ (c.decodedAs row).fields → P x :=
  (decodedAs_complete hrow hsize).exists_operand?_and_iff (operands_nodup row hrow) hkind

theorem operand?_cellAt {k : Nat} {kind : OperandKind} (hk : row.operands[k]? = some kind) :
    (c.decodedAs row).operand? kind = some (c.cellAt (k + 1)) := by
  obtain ⟨hlt, -⟩ := List.getElem?_eq_some_iff.1 hk
  have hinside : c.storage.ip + (k + 1) < c.program.size := by
    rw [Instruction.size] at hsize
    omega
  have hcell : (c.operandsAt c.storage.ip row)[k]? = some (c.cellAt (k + 1)) := by
    rw [c.operandsAt_getElem? hsize hlt, Chip.cellAt, Array.getD_eq_getD_getElem?,
      Array.getElem?_eq_getElem hinside, Option.getD_some]
  rw [operand?_iff hrow hsize]
  exact List.mem_of_getElem? (List.getElem?_zip_eq_some.2 ⟨hk, hcell⟩)

end

end Microcontroller.M1047
