import Microcontroller.Proofs.Chip.Place
import Microcontroller.Proofs.M1047.Admission
import Microcontroller.Proofs.M1047.Arithmetic
/-!
# A successful cycle, step by step

A cycle that succeeds carries out the plan of the row at the instruction pointer. `Executes` is all
there is to know about such a cycle. The operand that the plan was made with is the cell at its place
in the row, and what an instruction reads is read from the chip as it was before.
-/

namespace Microcontroller.M1047

/-- The cycle of a chip carries out this plan of this row. -/
structure Executes (c : Chip) (row : Instruction) (plan : Plan) : Prop where
  mem : row ∈ rows
  size : c.storage.ip + row.size ≤ c.program.size
  planned : Plan.ofOperation (c.decodedAs row) c.storage instructionSet.flags = .ok plan
  fits : plan.Fits c.config c.width instructionSet.statusBits
  result : { c with storage := c.storage.afterPlan instructionSet.flags plan }.advance plan.flow
    row.size = c.cycle.2

variable {c : Chip} {row : Instruction} {plan : Plan}

theorem exists_executes (hc : c.Conforms instructionSet c.config) {flow : Flow}
    (h : c.cycle.1 = .ok flow) :
    ∃ row plan, c.rowAt? c.storage.ip = some row ∧ Executes c row plan := by
  obtain ⟨row, plan, hx⟩ := hc.exists_carriesOut h
  obtain ⟨cell, -, hget⟩ := (rowAt?_eq_some_iff hc.instructions).1 hx.here
  exact ⟨row, plan, hx.here, List.mem_of_getElem? hget, hx.size, hx.planned, hx.fits, hx.result⟩

namespace Executes

variable (hx : Executes c row plan)

include hx

/-- A plan whose writes are apart updates storage at the places of all of them. -/
theorem updated (hc : c.Conforms instructionSet c.config)
    (hapart : (plan.allWrites instructionSet.flags).Pairwise
      (Write.Apart c.width c.config.digital)) :
    c.storage.Updated c.cycle.2.storage
      (plan.changes instructionSet.flags c.width c.config.digital) :=
  hx.result ▸ hc.updated hx.fits hapart row.size

theorem updated_write (hc : c.Conforms instructionSet c.config) {write : Write} {flow : Flow}
    (hplan : plan = ⟨[write], [], flow⟩) :
    c.storage.Updated c.cycle.2.storage (write.changes c.width c.config.digital) := by
  subst hplan
  have hupdated := hx.updated hc (List.pairwise_singleton _ _)
  simpa only [Plan.changes, Plan.allWrites, List.map_nil, List.append_nil, List.flatMap_cons,
    List.flatMap_nil] using hupdated

/-- A word goes to a cell while the stack pointer moves. -/
theorem updated_stack (hc : c.Conforms instructionSet c.config) {write : Write} {flow : Flow}
    {place : Place} {word sp : Nat}
    (hwrite : write.changes c.width c.config.digital = [(place, word)])
    (hplace : place ≠ .stackPointer) (hplan : plan = ⟨[write, .stackPointer sp], [], flow⟩) :
    c.storage.Updated c.cycle.2.storage [(place, word), (.stackPointer, sp)] := by
  have hapart : Write.Apart c.width c.config.digital write (.stackPointer sp) := by
    intro q x hq y hy
    rw [hwrite] at hq
    cases List.mem_singleton.1 hq
    cases List.mem_singleton.1 hy
    exact hplace rfl
  subst hplan
  have hupdated := hx.updated hc (List.pairwise_pair.2 hapart)
  have hsp : (Write.stackPointer sp).changes c.width c.config.digital = [(.stackPointer, sp)] := rfl
  simpa only [Plan.changes, Plan.allWrites, List.map_nil, List.append_nil, List.flatMap_cons,
    List.flatMap_nil, hwrite, hsp, List.singleton_append] using hupdated

/-! ### Operands -/

variable {k : Nat} {kind : OperandKind} (hk : row.operands[k]? = some kind)

include hk

theorem cell_eq {x : Nat} (h : Plan.cell (c.decodedAs row) c.storage kind = .ok x) :
    x = c.cellAt (k + 1) := by
  have hcell := operand?_cellAt hx.mem hx.size hk
  cases hcell.symm.trans (Plan.cell_ok_iff.1 h)
  rfl

theorem registerIndex_eq {i : Nat}
    (h : Plan.registerIndex (c.decodedAs row) c.storage kind = .ok i) : i = c.cellAt (k + 1) :=
  hx.cell_eq hk (Plan.cell_ok_iff.2 (Plan.registerIndex_ok_iff.1 h).1)

theorem register_eq {r : Nat} (h : Plan.register (c.decodedAs row) c.storage kind = .ok r) :
    r = c.word (c.cellAt (k + 1)) := by
  obtain ⟨i, hi, hr⟩ := Plan.register_ok_iff.1 h
  obtain rfl := hx.registerIndex_eq hk (Plan.registerIndex_ok_iff.2 hi)
  exact hr.symm

end Executes

end Microcontroller.M1047
