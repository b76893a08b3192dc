import Microcontroller.Proofs.Chip.Effect
import Microcontroller.Proofs.Chip.Reachable
import Microcontroller.Proofs.M1047.Operands
/-!
# Arithmetic on the M1047

An arithmetic instruction of the family leaves in its register what its mnemonic means by the words it
was given, sets the flags that its row lists as that meaning says, and leaves everything else alone.
The words are those from before the instruction, also where both operands are the same register.
-/

namespace Microcontroller.M1047

/-- The operation that an arithmetic mnemonic stands for. -/
def arithmetic? : String → Option Operation
  | "ADD" => some .add
  | "ADC" => some .addWithCarry
  | "SUB" | "SUBI" => some .subtract
  | "SBC" | "SBCI" => some .subtractWithCarry
  | "CP" | "CPI" => some .compare
  | "INC" => some .increment
  | "DEC" => some .decrement
  | "NEG" => some .negate
  | "AND" | "ANDI" => some .and
  | "OR" | "ORI" => some .or
  | "EOR" => some .xor
  | "COM" => some .complement
  | "LSL" => some .shiftLeft
  | "LSR" => some .shiftRight
  | "ASR" => some .arithmeticShiftRight
  | "ROR" => some .rotateRight
  | _ => none

/-- The second word of an instruction: that of its source register, or its immediate cell. -/
def secondWord (c : Chip) (row : Instruction) : Nat :=
  match row.operands with
  | [_, .source] => c.word (c.cellAt 2)
  | [_, .immediate] => c.cellAt 2
  | _ => 0

/-- A chip after an arithmetic instruction with this meaning, its destination in the first operand
cell. -/
structure Computes (c c' : Chip) (row : Instruction) (m : Meaning) : Prop where
  exists_destination : c.cellAt 1 < c.config.registers
  destination : c'.word (c.cellAt 1) =
    if row.mnemonic ∈ ["CP", "CPI"] then c.word (c.cellAt 1) else m.result
  register : ∀ i, i ≠ c.cellAt 1 → c'.word i = c.word i
  flag : ∀ f ∈ row.flags, c'.flag f = true ↔ m.Sets c.width.bits f
  status : ∀ i, (∀ f ∈ row.flags, instructionSet.flags.index f ≠ i) →
    c'.storage.status.bit i = c.storage.status.bit i
  memory : c'.storage.memory = c.storage.memory
  io : c'.storage.io = c.storage.io
  sp : c'.storage.sp = c.storage.sp

/-! ### The arithmetic rows -/

theorem operation_of_arithmetic : ∀ row ∈ rows, ∀ op ∈ arithmetic? row.mnemonic,
    row.operation = op := by decide

theorem flags_of_arithmetic : ∀ row ∈ rows, ∀ op ∈ arithmetic? row.mnemonic,
    ∀ f ∈ row.flags, f ∈ op.sets := by decide

theorem operands_of_arithmetic : ∀ row ∈ rows, ∀ op ∈ arithmetic? row.mnemonic,
    row.operands ∈ [[.destination], [.destination, .source], [.destination, .immediate]] := by decide

theorem destination_of_arithmetic : ∀ row ∈ rows, ∀ op ∈ arithmetic? row.mnemonic,
    row.operands[0]? = some .destination := by decide

theorem comparison_mnemonic_iff : ∀ row ∈ rows,
    (row.mnemonic ∈ ["CP", "CPI"] ↔ row.operation = .compare) := by decide

theorem exists_meaning {mnemonic : String} {op : Operation} (h : arithmetic? mnemonic = some op)
    (bits a b carry : Nat) : ∃ m, op.meaning? bits a b carry = some m := by
  unfold arithmetic? at h
  split at h <;> cases h <;> exact ⟨_, rfl⟩

/-! ### Their words -/

section

variable {c : Chip} {row : Instruction} (hc : c.Conforms instructionSet c.config)
  (hrow : row ∈ rows) (hsize : c.storage.ip + row.size ≤ c.program.size)

include hc

theorem word_lt (i : Nat) : c.word i < 2 ^ c.width.bits := hc.storage.registers.getD_lt i

include hrow hsize

theorem cellAt_lt {k : Nat} {kind : OperandKind} (hk : row.operands[k]? = some kind) :
    c.cellAt (k + 1) < 2 ^ c.width.bits :=
  (hc.decodedAs_fits row).operand?_lt (operand?_cellAt hrow hsize hk)

theorem secondWord_lt : secondWord c row < 2 ^ c.width.bits := by
  rw [secondWord]
  split
  next => exact word_lt hc _
  next heq => exact cellAt_lt hc hrow hsize (k := 1) (by rw [heq]; rfl)
  next => exact Nat.two_pow_pos _

theorem second_eq_of_operands
    (hoperands : row.operands ∈ [[.destination], [.destination, .source], [.destination, .immediate]])
    {r : Nat} (h : Plan.second (c.decodedAs row) c.storage = .ok r) : r = secondWord c row := by
  simp only [List.mem_cons, List.not_mem_nil, or_false] at hoperands
  have hhas : (c.decodedAs row).has .source = true ↔ .source ∈ row.operands := Decoded.has_iff
  rw [Plan.second_ok_iff] at h
  -- A row with one operand has no second input to plan with. In the others it is the second cell,
  -- as the number of a register or as it stands.
  rcases hoperands with hoperands | hoperands | hoperands
  · have hsource : ¬ (c.decodedAs row).has .source = true := by rw [hhas, hoperands]; decide
    rw [if_neg hsource] at h
    obtain ⟨x, hx, -⟩ := Plan.immediate_ok_iff.1 h
    have hmem : .immediate ∈ row.operands := (List.of_mem_zip (Decoded.mem_of_operand? hx)).1
    rw [hoperands] at hmem
    exact absurd hmem (by decide)
  · have hsource : (c.decodedAs row).has .source = true := by rw [hhas, hoperands]; decide
    have hk : row.operands[1]? = some .source := by rw [hoperands]; rfl
    have hcell := operand?_cellAt hrow hsize hk
    rw [if_pos hsource] at h
    obtain ⟨i, ⟨hi, -⟩, hr⟩ := Plan.register_ok_iff.1 h
    cases hcell.symm.trans hi
    simp only [secondWord, hoperands]
    exact hr.symm
  · have hsource : ¬ (c.decodedAs row).has .source = true := by rw [hhas, hoperands]; decide
    have hk : row.operands[1]? = some .immediate := by rw [hoperands]; rfl
    rw [if_neg hsource] at h
    obtain ⟨x, hx, hr⟩ := Plan.immediate_ok_iff.1 h
    cases (operand?_cellAt hrow hsize hk).symm.trans hx
    have hlt : c.cellAt 2 < c.width.capacity := cellAt_lt hc hrow hsize hk
    have htruncate : c.width.truncate (c.cellAt 2) = r := hr
    simp only [secondWord, hoperands]
    rw [← htruncate, Width.truncate_of_lt hlt]

theorem second_eq {op : Operation} (hop : arithmetic? row.mnemonic = some op) {r : Nat}
    (h : Plan.second (c.decodedAs row) c.storage = .ok r) : r = secondWord c row :=
  second_eq_of_operands hc hrow hsize (operands_of_arithmetic row hrow op hop) h

end

/-! ### Their effect -/

variable {c : Chip} {row : Instruction}

/-- Carrying out the plan of an arithmetic row on `c` computes what an outcome agrees with. -/
theorem computes_of_agrees (hc : c.Conforms instructionSet c.config) {c' : Chip}
    (hafter : c'.Conforms instructionSet c.config) {m : Meaning} {o : Alu.Outcome}
    (hrow : row ∈ rows) {op : Operation} (hop : arithmetic? row.mnemonic = some op)
    (hagrees : Alu.Agrees c.width.bits op.sets o m) (hexists : c.cellAt 1 < c.config.registers)
    (hc' : { c with
      storage := c.storage.afterPlan c.instructions.flags
        (Plan.computing (c.decodedAs row) (c.cellAt 1) o) }.advance .next row.size = c') :
    Computes c c' row m := by
  obtain ⟨hmemory, hio, hsp⟩ := Storage.afterPlan_computing_frame c.instructions.flags
    (c.decodedAs row) c.storage (c.cellAt 1) o
  have hinside : c.cellAt 1 < c.storage.registers.raw.size := by
    rwa [hc.storage.registers.size]
  have hlt : o.value < c.storage.registers.width.capacity := by
    rw [hc.storage.registers.width]
    exact hagrees.lt
  rw [← hc'] at hafter ⊢
  exact {
    exists_destination := hexists
    destination := by
      rw [if_congr (comparison_mnemonic_iff row hrow) rfl rfl, ← hagrees.value]
      exact Storage.word_afterPlan_computing hinside hlt
    register := fun i hi => Storage.word_afterPlan_computing_of_ne hi
    flag := by
      intro f hf
      obtain ⟨v, hv, hsets⟩ := hagrees.flag f (flags_of_arithmetic row hrow _ hop f hf)
      have hroom := hc.storage.status.unit_lt (instructionSet.flags.index_lt_statusBits f)
      rw [hafter.flag_eq, ← hsets]
      rw [← hc.instructions] at hroom ⊢
      exact Bool.eq_iff_iff.1 (Storage.bit_afterPlan_computing hroom hf hv)
    status := by
      intro i hi
      rw [← hc.instructions] at hi
      exact Storage.bit_afterPlan_computing_of_ne hi
    memory := hmemory
    io := hio
    sp := hsp }

/-- An arithmetic instruction that is executed computes what its mnemonic means. -/
theorem arithmetic_cycle (h : Chip.Reachable instructionSet c) {flow : Flow}
    (hcycle : c.cycle.1 = .ok flow) (hat : c.rowAt? c.storage.ip = some row) {op : Operation}
    (hop : arithmetic? row.mnemonic = some op) :
    ∃ m, op.meaning? c.width.bits (c.word (c.cellAt 1)) (secondWord c row)
        (c.flag .carry).toNat = some m ∧ Computes c c.cycle.2 row m := by
  have hc := h.conforms
  obtain ⟨m, hm⟩ := exists_meaning hop c.width.bits (c.word (c.cellAt 1)) (secondWord c row)
    (c.flag .carry).toNat
  obtain ⟨row', plan, hat', hsize, hplan, -, hc'⟩ :=
    (Chip.cycle_ok_iff hc.hasRoom).1 (Prod.ext hcycle rfl)
  cases hat.symm.trans hat'
  obtain ⟨cell, -, hget⟩ := (rowAt?_eq_some_iff hc.instructions).1 hat
  have hrow := List.mem_of_getElem? hget
  have hoperation := operation_of_arithmetic row hrow op hop
  have hrd := operand?_cellAt hrow hsize (destination_of_arithmetic row hrow op hop)
  obtain ⟨_, hchecked, hplan⟩ := bind_ok_iff.1 hplan
  have hexists := (Plan.checkRegisters_ok_iff.1 hchecked _ _ (Decoded.mem_of_operand? hrd)).1 rfl
  rw [Cells.size, hc.storage.registers.size] at hexists
  subst hoperation
  obtain ⟨o, hagrees, hcomputing⟩ := Plan.ofOperation_computing hrd
    (fun r => second_eq hc hrow hsize hop) (word_lt hc _) (secondWord_lt hc hrow hsize) hm hplan
  rw [hcomputing] at hc'
  exact ⟨m, hm, computes_of_agrees hc hc.cycle hrow hop hagrees hexists hc'⟩

/-- A register added to itself: both operands are read before the sum is written. -/
theorem arithmetic_cycle_double :
    let config : Config := { Config.m1047 with registers := 1, ram := 1, rom := 3, mapped := 0 }
    let blank := Chip.blank instructionSet config .w8 .halt
    let c := (blank.perform (.loadProgram 0 [0x01, 0, 0])).perform (.setRegister 0 0x90)
    let row : Instruction := ⟨"ADD", 0x01, .add, [.destination, .source], arithmeticFlags, none,
      "Add without carry: Rd = Rd + Rr"⟩
    Chip.Reachable instructionSet c ∧ c.cycle.2.word 0 = 0x20 ∧ c.cycle.2.flag .carry ∧
      ∃ m, Operation.meaning? c.width.bits (c.word (c.cellAt 1)) (secondWord c row)
        (c.flag .carry).toNat .add = some m ∧ Computes c c.cycle.2 row m := by
  intro config blank c row
  have hnew : Chip.new instructionSet config .halt = .ok blank := rfl
  have hc : Chip.Reachable instructionSet c := .perform _ (.perform _ (.new hnew))
  have hcycle : c.cycle.1 = .ok .next := by decide +kernel
  have hat : c.rowAt? c.storage.ip = some row := by decide +kernel
  have hword : c.cycle.2.word 0 = 0x20 := by decide +kernel
  have hcarry : c.cycle.2.flag .carry := by decide +kernel
  exact ⟨hc, hword, hcarry, arithmetic_cycle hc hcycle hat rfl⟩

end Microcontroller.M1047
