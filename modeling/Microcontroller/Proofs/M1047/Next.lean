import Microcontroller.Proofs.Chip.Flow
import Microcontroller.Proofs.M1047.Transfer
import Microcontroller.Proofs.Word.TwosComplement
/-!
# The next instruction

Where a chip of the family goes on after an instruction, said by mnemonic. Everything is counted from
the instruction itself and wraps around at the end of the address space, whatever the size of the
memory.
-/

namespace Microcontroller.M1047

/-! ### The law -/

/-- The address `offset` cells from the instruction pointer. -/
def relative (c : Chip) (offset : Int) : Nat :=
  (((c.storage.ip : Int) + offset) % 2 ^ c.config.bits).toNat

/-- The address behind an instruction at the instruction pointer. -/
def behind (c : Chip) (row : Instruction) : Nat :=
  (c.storage.ip + row.size) % 2 ^ c.config.bits

/-- The address of the instruction that comes after one of this row. A conditional branch has its
offset in the lowest seven bits of a cell, a jump in a whole cell. -/
def nextAddress (c : Chip) (row : Instruction) : Nat :=
  match row.mnemonic with
  | "BRBS" =>
    if c.storage.status.bit (c.cellAt 1) then relative c (Meaning.signed 7 (c.cellAt 2 % 2 ^ 7))
    else behind c row
  | "BRBC" =>
    if c.storage.status.bit (c.cellAt 1) then behind c row
    else relative c (Meaning.signed 7 (c.cellAt 2 % 2 ^ 7))
  | "RJMP" => relative c (Meaning.signed c.config.bits (c.cellAt 1))
  | "JMP" | "CALL" => c.cellAt 1
  | "RET" => c.storage.valueAt (.ram c.storage.sp)
  | _ => behind c row

/-- A chip after an instruction of this row. -/
structure Follows (c c' : Chip) (row : Instruction) : Prop where
  cycles : c'.storage.cycles = c.storage.cycles + 1
  ip : c'.storage.ip = nextAddress c row
  lifecycle : c'.lifecycle = if row.mnemonic = "BREAK" then .halted else c.lifecycle
  call : row.mnemonic = "CALL" → c.storage.Updated c'.storage
    [(.ram (pushed c), (c.storage.ip + 2) % 2 ^ c.config.bits), (.stackPointer, pushed c)]
  ret : row.mnemonic = "RET" → c.storage.Updated c'.storage [(.stackPointer, popped c)]

/-- The operation and the operands of the mnemonics that do not just go on. -/
def controlForm? : String → Option (Operation × List OperandKind)
  | "BRBS" => some (.branchIfSet, [.flagBit, .offset])
  | "BRBC" => some (.branchIfClear, [.flagBit, .offset])
  | "RJMP" => some (.jump, [.offset])
  | "JMP" => some (.jump, [.address])
  | "CALL" => some (.call, [.address])
  | "RET" => some (.ret, [])
  | _ => none

theorem form_of_control : ∀ row ∈ rows, ∀ form ∈ controlForm? row.mnemonic,
    row.operation = form.1 ∧ row.operands = form.2 := by decide

theorem not_controlFlow : ∀ row ∈ rows, controlForm? row.mnemonic = none →
    row.operation.isControlFlow = false := by decide

theorem break_mnemonic_iff : ∀ row ∈ rows, (row.mnemonic = "BREAK" ↔ row.operation = .stop) := by
  decide

theorem call_size : ∀ row ∈ rows, row.mnemonic = "CALL" → row.size = 2 := by decide

/-! ### Plans -/

variable {c : Chip} {row : Instruction} {plan : Plan}

theorem wrap_add (hc : c.Conforms instructionSet c.config) (offset : Int) :
    c.width.wrap (c.storage.ip + offset) = relative c offset := by
  rw [relative, ← Config.bits_of_width? hc.width, Width.wrap, TwosComplement.encode,
    Int.natCast_pow]
  rfl

theorem wrap_behind (hc : c.Conforms instructionSet c.config) (row : Instruction) :
    (c.storage.ip + row.size) % c.width.capacity = behind c row := by
  rw [behind, ← Config.bits_of_width? hc.width, Width.capacity]

namespace Executes

variable (hx : Executes c row plan)

include hx

theorem ip_eq (hc : c.Conforms instructionSet c.config) :
    c.cycle.2.storage.ip = match plan.flow with
      | .jump target => target
      | .next | .stop => behind c row := by
  rw [← hx.result, Chip.ip_advance]
  cases plan.flow with
  | jump target => rfl
  | next => exact wrap_behind hc row
  | stop => exact wrap_behind hc row

theorem ip_of_jump (hc : c.Conforms instructionSet c.config) {target : Nat}
    (h : plan.flow = .jump target) : c.cycle.2.storage.ip = target := by
  rw [hx.ip_eq hc, h]

theorem cycles_eq : c.cycle.2.storage.cycles = c.storage.cycles + 1 := by
  rw [← hx.result, Chip.cycles_advance]

theorem lifecycle_eq :
    c.cycle.2.lifecycle = if row.mnemonic = "BREAK" then .halted else c.lifecycle := by
  have hstop : plan.flow = .stop ↔ row.operation = .stop :=
    (Plan.shape_of_ofOperation hx.planned).flow_eq_stop_iff
  rw [if_congr ((break_mnemonic_iff row hx.mem).trans hstop.symm) rfl rfl, ← hx.result]
  rfl

theorem relative_eq (hc : c.Conforms instructionSet c.config) {k : Nat}
    (hk : row.operands[k]? = some .offset) {target : Nat}
    (h : Plan.relative (c.decodedAs row) c.storage = .ok target) :
    target = relative c (row.offset c.width (c.cellAt (k + 1))) := by
  obtain ⟨offset, hoffset, htarget⟩ := Plan.relative_ok_iff.1 h
  obtain ⟨cell, hcell, hoffset⟩ := Option.map_eq_some_iff.1 hoffset
  obtain rfl := hx.cell_eq hk (Plan.cell_ok_iff.2 hcell)
  rw [← htarget, ← hoffset, ← wrap_add hc]
  rfl

theorem branch_ip (hc : c.Conforms instructionSet c.config) (wanted : Bool)
    (hop : row.operation = if wanted then .branchIfSet else .branchIfClear)
    (hoperands : row.operands = [.flagBit, .offset]) :
    c.cycle.2.storage.ip = if c.storage.status.bit (c.cellAt 1) = wanted then
      relative c (Meaning.signed 7 (c.cellAt 2 % 2 ^ 7)) else behind c row := by
  have hbit : row.operands[0]? = some .flagBit := by rw [hoperands]; rfl
  have hk : row.operands[1]? = some .offset := by rw [hoperands]; rfl
  have hbits : row.offsetBits c.width = 7 := by
    rw [Instruction.offsetBits, hop]
    cases wanted <;> rfl
  have hop : (c.decodedAs row).instruction.operation =
    if wanted then .branchIfSet else .branchIfClear := hop
  have h : Plan.branch (c.decodedAs row) c.storage wanted = .ok plan := by
    have h := hx.planned
    cases wanted <;>
      simpa only [Plan.ofOperation, hop, if_true, Bool.false_eq_true, if_false] using h
  obtain ⟨b, ⟨hb, -⟩, h⟩ := Plan.branch_ok_iff.1 h
  rw [hx.cell_eq hbit (Plan.cell_ok_iff.2 hb)] at h
  split at h
  next htaken =>
    obtain ⟨target, htarget, hplan⟩ := h
    have hjump : plan.flow = .jump target := by rw [← hplan]; rfl
    rw [if_pos htaken, hx.ip_of_jump hc hjump, hx.relative_eq hc hk htarget, Instruction.offset,
      hbits, TwosComplement.decode_eq_signed (by decide)]
  next huntaken =>
    rw [if_neg huntaken, hx.ip_eq hc, ← h]
    rfl

theorem jump_relative_ip (hc : c.Conforms instructionSet c.config) (hop : row.operation = .jump)
    (hoperands : row.operands = [.offset]) :
    c.cycle.2.storage.ip = relative c (Meaning.signed c.config.bits (c.cellAt 1)) := by
  have hk : row.operands[0]? = some .offset := by rw [hoperands]; rfl
  have hhas : (c.decodedAs row).has .offset = true := Decoded.has_iff.2 (List.mem_of_getElem? hk)
  have hbits : row.offsetBits c.width = c.width.bits := by rw [Instruction.offsetBits, hop]
  have hop : (c.decodedAs row).instruction.operation = .jump := hop
  have h := hx.planned
  simp only [Plan.ofOperation, hop, hhas, if_true] at h
  obtain ⟨target, htarget, h⟩ := bind_ok_iff.1 h
  have hjump : plan.flow = .jump target := by rw [← pure_ok_iff.1 h]; rfl
  rw [hx.ip_of_jump hc hjump, hx.relative_eq hc hk htarget, Instruction.offset, hbits,
    TwosComplement.decode_eq_signed c.width.bits_pos,
    Nat.mod_eq_of_lt (cellAt_lt hc hx.mem hx.size hk), Config.bits_of_width? hc.width]

theorem jump_direct_ip (hc : c.Conforms instructionSet c.config) (hop : row.operation = .jump)
    (hoperands : row.operands = [.address]) : c.cycle.2.storage.ip = c.cellAt 1 := by
  have hk : row.operands[0]? = some .address := by rw [hoperands]; rfl
  have hnot : .offset ∉ row.operands := by rw [hoperands]; decide
  have hhas : ¬ (c.decodedAs row).has .offset = true := fun h => hnot (Decoded.has_iff.1 h)
  have hop : (c.decodedAs row).instruction.operation = .jump := hop
  have h := hx.planned
  simp only [Plan.ofOperation, hop, hhas] at h
  obtain ⟨target, htarget, h⟩ := bind_ok_iff.1 h
  have hjump : plan.flow = .jump target := by rw [← pure_ok_iff.1 h]; rfl
  rw [hx.ip_of_jump hc hjump, hx.cell_eq hk htarget]

theorem call_plan (hc : c.Conforms instructionSet c.config) (hop : row.operation = .call)
    (hoperands : row.operands = [.address]) :
    plan = ⟨[.ram (pushed c) (behind c row), .stackPointer (pushed c)], [], .jump (c.cellAt 1)⟩ := by
  have hk : row.operands[0]? = some .address := by rw [hoperands]; rfl
  have hop : (c.decodedAs row).instruction.operation = .call := hop
  have h := hx.planned
  simp only [Plan.ofOperation, hop] at h
  obtain ⟨target, htarget, h⟩ := bind_ok_iff.1 h
  obtain ⟨writes, hwrites, h⟩ := bind_ok_iff.1 h
  obtain ⟨-, rfl⟩ := Plan.push_ok_iff.1 hwrites
  rw [← pure_ok_iff.1 h, hx.cell_eq hk htarget, ← wrap_pushed hc, ← wrap_behind hc,
    ← Width.wrap_natCast, Int.natCast_add]
  rfl

theorem ret_plan (hc : c.Conforms instructionSet c.config) (hop : row.operation = .ret) :
    plan = ⟨[.stackPointer (popped c)], [], .jump (c.storage.valueAt (.ram c.storage.sp))⟩ := by
  have hop : (c.decodedAs row).instruction.operation = .ret := hop
  have h := hx.planned
  simp only [Plan.ofOperation, hop] at h
  obtain ⟨target, htarget, h⟩ := bind_ok_iff.1 h
  obtain ⟨-, rfl⟩ := Plan.top_ok_iff.1 htarget
  rw [← pure_ok_iff.1 h, ← wrap_popped hc]
  rfl

/-! ### The law holds -/

theorem ip_eq_nextAddress (hc : c.Conforms instructionSet c.config) :
    c.cycle.2.storage.ip = nextAddress c row := by
  have hform := form_of_control row hx.mem
  unfold nextAddress
  split
  next hbrbs =>
    obtain ⟨hop, hoperands⟩ := hform _ (by rw [hbrbs]; rfl)
    exact hx.branch_ip hc true hop hoperands
  next hbrbc =>
    obtain ⟨hop, hoperands⟩ := hform _ (by rw [hbrbc]; rfl)
    rw [hx.branch_ip hc false hop hoperands]
    cases c.storage.status.bit (c.cellAt 1) <;> rfl
  next hrjmp =>
    obtain ⟨hop, hoperands⟩ := hform _ (by rw [hrjmp]; rfl)
    exact hx.jump_relative_ip hc hop hoperands
  next hjmp =>
    obtain ⟨hop, hoperands⟩ := hform _ (by rw [hjmp]; rfl)
    exact hx.jump_direct_ip hc hop hoperands
  next hcall =>
    obtain ⟨hop, hoperands⟩ := hform _ (by rw [hcall]; rfl)
    exact hx.ip_of_jump hc (by rw [hx.call_plan hc hop hoperands])
  next hret =>
    obtain ⟨hop, -⟩ := hform _ (by rw [hret]; rfl)
    exact hx.ip_of_jump hc (by rw [hx.ret_plan hc hop])
  next hbrbs hbrbc hrjmp hjmp hcall hret =>
    have hnone : controlForm? row.mnemonic = none := by
      unfold controlForm?
      split <;> first | contradiction | rfl
    have hcontrol : (c.decodedAs row).instruction.operation.isControlFlow = false :=
      not_controlFlow row hx.mem hnone
    have hshape := Plan.shape_of_ofOperation hx.planned
    rw [hx.ip_eq hc]
    by_cases hstop : plan.flow = .stop
    · rw [hstop]
    · rw [hshape.flow_eq_next hcontrol (mt hshape.flow_eq_stop_iff.2 hstop)]

theorem follows (hc : c.Conforms instructionSet c.config) : Follows c c.cycle.2 row where
  cycles := hx.cycles_eq
  ip := hx.ip_eq_nextAddress hc
  lifecycle := hx.lifecycle_eq
  call hcall := by
    obtain ⟨hop, hoperands⟩ := form_of_control row hx.mem _ (by rw [hcall]; rfl)
    have hlt : behind c row < c.width.capacity := by
      rw [← wrap_behind hc]
      exact Nat.mod_lt _ c.width.capacity_pos
    have hbehind : behind c row = (c.storage.ip + 2) % 2 ^ c.config.bits := by
      rw [behind, call_size row hx.mem hcall]
    refine hx.updated_stack hc ?_ (by rintro ⟨⟩) (hx.call_plan hc hop hoperands)
    rw [Write.changes, Width.truncate_of_lt hlt, hbehind]
  ret hret := by
    obtain ⟨hop, -⟩ := form_of_control row hx.mem _ (by rw [hret]; rfl)
    exact hx.updated_write hc (hx.ret_plan hc hop)

end Executes

end Microcontroller.M1047
