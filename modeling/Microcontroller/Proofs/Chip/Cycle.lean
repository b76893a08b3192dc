import Microcontroller.Proofs.Chip.Fetch
import Microcontroller.Proofs.Chip.Fit
/-!
# What a cycle can do

A cycle fetches, plans, and carries out the plan. It can end in two ways only: it stops at a fault,
and then storage is what it was but for the instruction pointer, or there is a row with all of its
operands and a plan for it, and then storage is what the plan makes of it.
-/

namespace Microcontroller.Chip

/-- Every flag of the chip has its place in the status register. -/
def HasRoom (c : Chip) : Prop := ∀ f, c.instructions.flags.index f < c.storage.status.len

/-- Cells that the skip policy goes past: those of the row at the instruction pointer, or one cell
where there is no row. -/
def skipSize (c : Chip) : Nat := ((c.rowAt? c.storage.ip).map Instruction.size).getD 1

def decodedAs (c : Chip) (row : Instruction) : Decoded :=
  ⟨row, c.operandsAt c.storage.ip row, c.width⟩

variable {c : Chip}

theorem cycle_eq (hroom : c.HasRoom) : c.cycle = match c.fetch c.storage.ip with
    | .error (fault, size) => (.error fault, c.stopAt fault size)
    | .ok d =>
      match Plan.of d c.storage c.instructions.flags with
      | .error fault => (.error fault, c.stopAt fault d.size)
      | .ok plan => (.ok plan.flow,
          { c with storage := c.storage.afterPlan c.instructions.flags plan }.advance plan.flow
            d.size) := by
  rw [cycle]
  cases c.fetch c.storage.ip with
  | error stop => rfl
  | ok d =>
    simp only [Storage.execute_eq d hroom]
    cases Plan.of d c.storage c.instructions.flags <;> rfl

theorem cycle_of_fetch_error {fault : Fault} {size : Nat}
    (h : c.fetch c.storage.ip = .error (fault, size)) :
    c.cycle = (.error fault, c.stopAt fault size) := by
  rw [cycle, h]

theorem cycle_of_row (hroom : c.HasRoom) {row : Instruction}
    (hrow : c.rowAt? c.storage.ip = some row) (hsize : c.storage.ip + row.size ≤ c.program.size) :
    c.cycle = match Plan.of (c.decodedAs row) c.storage c.instructions.flags with
      | .error fault => (.error fault, c.stopAt fault row.size)
      | .ok plan => (.ok plan.flow,
          { c with storage := c.storage.afterPlan c.instructions.flags plan }.advance plan.flow
            row.size) := by
  rw [cycle_eq hroom, fetch_row hrow hsize]
  rfl

/-- A cycle that faults only stops the chip. -/
theorem cycle_of_error (hroom : c.HasRoom) {fault : Fault} (h : c.cycle.1 = .error fault) :
    c.cycle.2 = c.stopAt fault c.skipSize := by
  rw [cycle_eq hroom] at h ⊢
  cases hfetch : c.fetch c.storage.ip with
  | error stop =>
    obtain ⟨fault', size⟩ := stop
    rw [hfetch] at h
    cases h
    exact congrArg (c.stopAt fault) (size_of_fetch_error hfetch)
  | ok d =>
    obtain ⟨row, hrow, -, rfl⟩ := fetch_ok_iff.1 hfetch
    simp only [hfetch] at h ⊢
    have hskip : c.skipSize = row.size := by rw [skipSize, hrow]; rfl
    split at h <;> cases h
    rw [hskip]
    rfl

theorem cycle_ok_iff (hroom : c.HasRoom) {flow : Flow} {c' : Chip} :
    c.cycle = (.ok flow, c') ↔ ∃ row plan, c.rowAt? c.storage.ip = some row ∧
      c.storage.ip + row.size ≤ c.program.size ∧
      Plan.of (c.decodedAs row) c.storage c.instructions.flags = .ok plan ∧ plan.flow = flow ∧
      { c with storage := c.storage.afterPlan c.instructions.flags plan }.advance plan.flow row.size
        = c' := by
  constructor
  · intro h
    rw [cycle_eq hroom] at h
    cases hfetch : c.fetch c.storage.ip with
    | error stop => rw [hfetch] at h; cases h
    | ok d =>
      obtain ⟨row, hrow, hsize, rfl⟩ := fetch_ok_iff.1 hfetch
      simp only [hfetch] at h
      split at h <;> cases h
      next plan hplan => exact ⟨row, plan, hrow, hsize, hplan, rfl, rfl⟩
  · intro h
    obtain ⟨row, plan, hrow, hsize, hplan, rfl, rfl⟩ := h
    rw [cycle_of_row hroom hrow hsize, hplan]

/-- Whether a cycle succeeds is whether there is a row with its operands and a plan for it. -/
theorem exists_cycle_ok_iff (hroom : c.HasRoom) :
    (∃ flow, c.cycle.1 = .ok flow) ↔ ∃ row, c.rowAt? c.storage.ip = some row ∧
      c.storage.ip + row.size ≤ c.program.size ∧
      ∃ plan, Plan.of (c.decodedAs row) c.storage c.instructions.flags = .ok plan := by
  constructor
  · intro ⟨flow, h⟩
    obtain ⟨row, plan, hrow, hsize, hplan, -⟩ := (cycle_ok_iff hroom).1 (Prod.ext h rfl)
    exact ⟨row, hrow, hsize, plan, hplan⟩
  · intro ⟨row, hrow, hsize, plan, hplan⟩
    rw [cycle_of_row hroom hrow hsize, hplan]
    exact ⟨plan.flow, rfl⟩

end Microcontroller.Chip
