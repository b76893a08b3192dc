import Microcontroller.Proofs.Chip.Layout
import Microcontroller.Proofs.Chip.Plan
import Microcontroller.Proofs.Isa.Layout
import Microcontroller.Proofs.M1047.Table
/-!
# Executing by mnemonic

An instruction of the family as it is written down: a mnemonic and the cells of its operands. On storage
of the family's layout it either has a plan, which is then carried out to the end, or it faults and
leaves the storage alone.
-/

namespace Microcontroller.M1047

/-- Execute the instruction with this mnemonic and these operand cells. An unknown mnemonic is an error
of its own. -/
def execute (w : Width) (mnemonic : String) (cells : List Nat) (s : Storage) :
    Except Error (Except Fault Flow × Storage) := do
  return s.execute instructionSet.flags ⟨← table.lookup mnemonic, cells, w⟩

theorem lookup_mnemonic : ∀ row ∈ rows, table.lookup row.mnemonic = .ok row := by decide +kernel

variable {config : Config} {w : Width} {s : Storage} {row : Instruction} {cells : List Nat}

theorem index_lt_status (hs : s.Conforms config w instructionSet.statusBits) (f : Flag) :
    instructionSet.flags.index f < s.status.len := by
  rw [hs.status.length]
  exact instructionSet.flags.index_lt_statusBits f

/-- The status register of the family has room for every flag. -/
theorem flag_eq_bit (hs : s.Conforms config w instructionSet.statusBits) (f : Flag) :
    s.flag instructionSet.flags f = s.status.bit (instructionSet.flags.index f) := by
  simp [Storage.flag, index_lt_status hs f]

/-- An instruction is executed by its plan, or not at all. -/
theorem execute_mnemonic (hs : s.Conforms config w instructionSet.statusBits) (hrow : row ∈ rows) :
    execute w row.mnemonic cells s =
      .ok (match Plan.of ⟨row, cells, w⟩ s instructionSet.flags with
        | .ok plan => (.ok plan.flow, s.afterPlan instructionSet.flags plan)
        | .error fault => (.error fault, s)) := by
  rw [execute, lookup_mnemonic row hrow]
  exact congrArg Except.ok (Storage.execute_eq _ (index_lt_status hs))

/-- An instruction of which all register operands exist does what its operation plans. -/
theorem execute_of_plan (hs : s.Conforms config w instructionSet.statusBits) (hrow : row ∈ rows)
    {plan : Plan} (hchecked : Plan.checkRegisters ⟨row, cells, w⟩ s = .ok ())
    (hplan : Plan.ofOperation ⟨row, cells, w⟩ s instructionSet.flags = .ok plan) :
    execute w row.mnemonic cells s =
      .ok (.ok plan.flow, s.afterPlan instructionSet.flags plan) := by
  have hof : Plan.of ⟨row, cells, w⟩ s instructionSet.flags = .ok plan :=
    bind_ok_iff.2 ⟨(), hchecked, hplan⟩
  rw [execute_mnemonic hs hrow, hof]

/-- An instruction for which there is no plan faults, and that is all. -/
theorem execute_of_not_planned (hs : s.Conforms config w instructionSet.statusBits)
    (hrow : row ∈ rows)
    (h : ∀ plan, Plan.ofOperation ⟨row, cells, w⟩ s instructionSet.flags ≠ .ok plan) :
    ∃ fault, execute w row.mnemonic cells s = .ok (.error fault, s) := by
  rw [execute_mnemonic hs hrow]
  cases hof : Plan.of ⟨row, cells, w⟩ s instructionSet.flags with
  | error fault => exact ⟨fault, rfl⟩
  | ok plan =>
    obtain ⟨_, -, hplan⟩ := bind_ok_iff.1 hof
    exact absurd hplan (h plan)

/-! ### Operands as they are written -/

section

variable {kinds : List OperandKind} (hoperands : row.operands = kinds)

include hoperands

theorem operand?_written (kind : OperandKind) :
    Decoded.operand? ⟨row, cells, w⟩ kind = (kinds.zip cells).lookup kind := by
  rw [← hoperands]
  rfl

theorem has_written (kind : OperandKind) :
    Decoded.has ⟨row, cells, w⟩ kind = kinds.contains kind := by
  rw [← hoperands]
  rfl

theorem checkRegisters_written
    (hregister : ∀ field ∈ kinds.zip cells, field.1.isRegister → field.2 < s.registers.size)
    (hpointer : .pointer ∈ kinds → ∃ pair, Plan.pair ⟨row, cells, w⟩ s = .ok pair) :
    Plan.checkRegisters ⟨row, cells, w⟩ s = .ok () := by
  rw [← hoperands] at hregister hpointer
  refine Plan.checkRegisters_ok_iff.2 fun kind x hmem => ⟨hregister (kind, x) hmem, ?_⟩
  intro hkind
  exact hpointer (hkind ▸ (List.of_mem_zip hmem).1)

end

end Microcontroller.M1047
