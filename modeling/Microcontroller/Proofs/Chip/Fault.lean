import Microcontroller.Proofs.Chip.Reachable
/-!
# A fault has no effect

An instruction that faults was not executed at all: planning changes nothing, and once there is a
plan nothing can go wrong. What is left of it is the fault itself, a chip that has halted, and an
instruction pointer that the policy may have moved past it.
-/

namespace Microcontroller.Chip

/-- A cycle that faults leaves storage as it was but for the instruction pointer, which the skip
policy moves past the row it points to, or past one cell if it points to none. -/
theorem cycle_fault {set : InstructionSet} {c : Chip} (hc : Reachable set c) {fault : Fault}
    (h : c.cycle.1 = .error fault) :
    c.cycle.2 = { c with
      storage := { c.storage with
        ip := match c.policy with
          | .halt => c.storage.ip
          | .skip =>
            (c.storage.ip + match c.rowAt? c.storage.ip with
              | some row => row.size
              | none => 1) % 2 ^ c.width.bits }
      lifecycle := .halted
      fault := some fault } := by
  have hskip : c.skipSize = match c.rowAt? c.storage.ip with
      | some row => row.size
      | none => 1 := by
    rw [skipSize]
    cases c.rowAt? c.storage.ip <;> rfl
  rw [cycle_of_error hc.conforms.hasRoom h, ← hskip]
  have hafter : c.after c.skipSize = (c.storage.ip + c.skipSize) % 2 ^ c.width.bits := by
    rw [after, ← Int.natCast_add, Width.wrap_natCast, Width.capacity]
  rw [stopAt]
  cases c.policy with
  | halt => rfl
  | skip => rw [hafter]

/-- A table whose only row lacks the operand that its operation adds. -/
def lacking : InstructionSet where
  name := "lacking"
  flags := FlagLayout.inOrder
  table := ⟨[⟨"ADD", 0x01, .add, [.destination], [.zero], none, "Add nothing"⟩], by decide, by decide⟩

/-- Such a row is found out when it is executed, and skipped as a whole. -/
theorem cycle_fault_lacking :
    let config : Config := { Config.m1047 with registers := 1, ram := 2, rom := 0, mapped := 0 }
    let c := (blank lacking config .w8 .skip).perform (.loadProgram 0 [1, 0])
    Reachable lacking c ∧ c.cycle.1 = .error (.illegalInstruction 0 1) ∧
      c.cycle.2 = { c with
        storage := { c.storage with ip := 2 }
        lifecycle := .halted
        fault := some (.illegalInstruction 0 1) } := by
  intro config c
  have hc : Reachable lacking c :=
    .perform _ (.new (show new lacking config .skip = .ok (blank lacking config .w8 .skip) from rfl))
  have hfault : c.cycle.1 = .error (.illegalInstruction 0 1) := by rfl
  exact ⟨hc, hfault, cycle_fault hc hfault⟩

end Microcontroller.Chip
