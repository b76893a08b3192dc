import Microcontroller.Proofs.AddressMap
import Microcontroller.Proofs.Chip.Reachable
import Microcontroller.Proofs.Chip.Report
import Microcontroller.Proofs.Configuration
import Microcontroller.Proofs.M1047.Operands
/-!
# When an instruction of the M1047 is executed

What each instruction of the family asks of its chip, said by mnemonic and in terms of the
configuration. A cycle succeeds if the instruction pointer is at a whole instruction and the chip has
what that instruction asks for; if not, the cycle faults. The fault is an illegal instruction only
where the cell is none of the 47 opcodes.
-/

namespace Microcontroller

/-- A chip with this configuration has something at an I/O address: a port of at most eight pins, an
analog channel, the stack pointer, or a mapped channel. -/
def Config.HasIo (config : Config) (address : Nat) : Prop :=
  8 * address < config.digital ∨
  8 ≤ address ∧ address - 8 < config.analog ∨
  address = 0x1D ∨
  0x20 ≤ address ∧ address - 0x20 < config.mapped

namespace M1047

/-- The RAM address that a pointer holds: the word of its upper register above that of its lower. -/
def pointed (c : Chip) (pointer : Nat) : Nat :=
  let low := c.config.registers - (6 - 2 * pointer)
  c.word (low + 1) * 2 ^ c.config.bits + c.word low

/-- What an instruction with these operand cells asks of a chip. -/
structure Admits (c : Chip) (mnemonic : String) (operands : List (OperandKind × Nat)) : Prop where
  register : ∀ kind x, (kind, x) ∈ operands → kind.isRegister → x < c.config.registers
  pointer : ∀ p, (.pointer, p) ∈ operands → p ≤ 2 ∧ 6 - 2 * p ≤ c.config.registers
  indirect : mnemonic ∈ ["LD", "ST"] → ∀ p, (.pointer, p) ∈ operands →
    pointed c p < c.config.ramSize
  direct : mnemonic ∈ ["LDS", "STS"] → ∀ a, (.address, a) ∈ operands → a < c.config.ramSize
  push : mnemonic ∈ ["PUSH", "CALL"] →
    ((c.storage.sp : Int) - 1) % 2 ^ c.config.bits < c.config.ramSize
  pop : mnemonic ∈ ["POP", "RET"] → c.storage.sp < c.config.ramSize
  pin : mnemonic ∈ ["SBI", "CBI"] → ∀ b, (.bit, b) ∈ operands → b < c.config.digital
  statusBit : mnemonic ∈ ["BSET", "BCLR", "BRBS", "BRBC"] → ∀ b, (.flagBit, b) ∈ operands → b < 16
  registerBit : mnemonic ∈ ["BST", "BLD"] → ∀ b, (.bit, b) ∈ operands → b < c.config.bits
  io : mnemonic ∈ ["IN", "OUT"] → ∀ a, (.ioAddress, a) ∈ operands → c.config.HasIo a

/-- The instruction pointer is at an opcode, the instruction ends within program memory, and the chip
has what it asks for. -/
def Ready (c : Chip) : Prop :=
  ∃ cell row, c.program[c.storage.ip]? = some cell ∧ cell ≤ 0x2E ∧ rows[cell]? = some row ∧
    c.storage.ip + row.size ≤ c.program.size ∧
    Admits c row.mnemonic (row.operands.zip (c.operandsAt c.storage.ip row))

/-! ### Mnemonics and operations -/

/-- In the table these mnemonics belong to these operations and to no others, and what they are used
with is an operand of this kind. -/
def Names (mnemonics : List String) (operations : List Operation) (kind : OperandKind) : Prop :=
  ∀ row ∈ rows, (row.mnemonic ∈ mnemonics ↔ row.operation ∈ operations) ∧
    (row.operation ∈ operations → kind ∈ row.operands)

theorem pin_names : Names ["SBI", "CBI"] [.setPin, .clearPin] .bit := by
  rw [Names]
  decide

theorem statusBit_names : Names ["BSET", "BCLR", "BRBS", "BRBC"]
    [.setFlag, .clearFlag, .branchIfSet, .branchIfClear] .flagBit := by
  rw [Names]
  decide

theorem registerBit_names : Names ["BST", "BLD"] [.bitStore, .bitLoad] .bit := by
  rw [Names]
  decide

theorem io_names : Names ["IN", "OUT"] [.input, .output] .ioAddress := by
  rw [Names]
  decide

theorem push_mnemonic_iff : ∀ row ∈ rows,
    (row.mnemonic ∈ ["PUSH", "CALL"] ↔ row.operation ∈ [.push, .call]) := by decide

theorem pop_mnemonic_iff : ∀ row ∈ rows,
    (row.mnemonic ∈ ["POP", "RET"] ↔ row.operation ∈ [.pop, .ret]) := by decide

theorem indirect_mnemonic_iff : ∀ row ∈ rows, (row.mnemonic ∈ ["LD", "ST"] ↔
    row.operation ∈ [.load, .store] ∧ .pointer ∈ row.operands) := by decide

theorem direct_mnemonic_iff : ∀ row ∈ rows, (row.mnemonic ∈ ["LDS", "STS"] ↔
    row.operation ∈ [.load, .store] ∧ .pointer ∉ row.operands) := by decide

theorem direct_address : ∀ row ∈ rows, row.operation ∈ [.load, .store] →
    .pointer ∉ row.operands → .address ∈ row.operands := by decide

/-! ### Admission and planning -/

/-- The I/O addresses that the banks answer at are those that the configuration has. -/
theorem answers_iff {config : Config} {w : Width} {b : IoBanks} (hb : b.Conforms config w)
    (hconfig : config.Valid) (a : Nat) : b.Answers a ↔ config.HasIo a := by
  have hdigital := hconfig.digital_le
  have hanalog := hconfig.analog_le
  have hunits : b.digital.units.size = (config.digital + 7) / 8 := hb.digital.units
  have hchannels : b.analog.size = config.analog := hb.analog.size
  have hmapped : b.mapped.size = config.mapped := hb.mapped.size
  rw [IoBanks.Answers, Config.HasIo]
  by_cases hport : a < 8
  · rw [AddressMap.resolve_digital hport]
    dsimp only
    omega
  by_cases hchannel : a < 16
  · rw [AddressMap.resolve_analog (Nat.le_of_not_lt hport) hchannel]
    dsimp only
    omega
  by_cases hmap : 0x20 ≤ a
  · rw [AddressMap.resolve_mapped hmap]
    dsimp only
    omega
  by_cases hstack : a = 0x1D
  · rw [hstack, AddressMap.resolve_stackPointer]
    exact iff_of_true trivial (Or.inr (Or.inr (Or.inl rfl)))
  · rw [AddressMap.resolve_reserved (by omega) (by omega) hstack]
    refine iff_of_false id ?_
    omega

section

variable {c : Chip} {row : Instruction} (hc : c.Conforms instructionSet c.config)
  (hrow : row ∈ rows) (hsize : c.storage.ip + row.size ≤ c.program.size)

include hrow hsize hc

theorem checkRegisters_iff : Plan.checkRegisters (c.decodedAs row) c.storage = .ok () ↔
    (∀ kind x, (kind, x) ∈ (c.decodedAs row).fields → kind.isRegister → x < c.config.registers) ∧
      ∀ p, (.pointer, p) ∈ (c.decodedAs row).fields → p ≤ 2 ∧ 6 - 2 * p ≤ c.config.registers := by
  have hregisters : c.storage.registers.size = c.config.registers := hc.storage.registers.size
  rw [Plan.checkRegisters_ok_iff, hregisters]
  constructor
  · intro h
    refine ⟨fun kind x hx => (h kind x hx).1, ?_⟩
    intro p hp
    obtain ⟨pair, hpair⟩ := (h .pointer p hp).2 rfl
    obtain ⟨x, hx, hle, -⟩ := Plan.pair_ok_iff.1 hpair
    cases ((operand?_iff hrow hsize).2 hp).symm.trans hx
    exact hregisters ▸ hle
  · intro ⟨hregister, hpointer⟩ kind x hx
    refine ⟨hregister kind x hx, ?_⟩
    intro hkind
    subst hkind
    have hle := hpointer x hx
    rw [← hregisters] at hle
    exact ⟨_, Plan.pair_ok_iff.2 ⟨x, (operand?_iff hrow hsize).2 hx, hle, rfl⟩⟩

omit hrow hsize in
theorem pairWord_eq (p : Nat) :
    Plan.pairWord (c.decodedAs row) c.storage
      (c.storage.registers.size - (6 - 2 * p), c.storage.registers.size - (6 - 2 * p) + 1) =
        pointed c p := by
  have hregisters : c.storage.registers.size = c.config.registers := hc.storage.registers.size
  rw [pointed, ← Config.bits_of_width? hc.width, hregisters]
  rfl

theorem address_indirect_iff (hkind : .pointer ∈ row.operands)
    (hpointer : ∀ p, (.pointer, p) ∈ (c.decodedAs row).fields →
      p ≤ 2 ∧ 6 - 2 * p ≤ c.config.registers) {n : Nat} :
    (∃ a, Plan.address (c.decodedAs row) c.storage = .ok a ∧ a < n) ↔
      ∀ p, (.pointer, p) ∈ (c.decodedAs row).fields → pointed c p < n := by
  have hregisters : c.storage.registers.size = c.config.registers := hc.storage.registers.size
  have hhas : (c.decodedAs row).has .pointer = true := Decoded.has_iff.2 hkind
  rw [← exists_operand?_iff hrow hsize hkind]
  simp only [Plan.address_ok_iff, if_pos hhas, Plan.pair_ok_iff]
  constructor
  · intro h
    obtain ⟨_, ⟨_, ⟨p, hp, _, rfl⟩, rfl⟩, hlt⟩ := h
    rw [pairWord_eq hc] at hlt
    exact ⟨p, hp, hlt⟩
  · intro h
    obtain ⟨p, hp, hlt⟩ := h
    have hle := hpointer p ((operand?_iff hrow hsize).1 hp)
    rw [← hregisters] at hle
    rw [← pairWord_eq hc] at hlt
    exact ⟨_, ⟨_, ⟨p, hp, hle, rfl⟩, rfl⟩, hlt⟩

omit hc in
theorem address_direct_iff (hpointer : .pointer ∉ row.operands) (hkind : .address ∈ row.operands)
    {n : Nat} : (∃ a, Plan.address (c.decodedAs row) c.storage = .ok a ∧ a < n) ↔
      ∀ a, (.address, a) ∈ (c.decodedAs row).fields → a < n := by
  have hhas : ¬ (c.decodedAs row).has .pointer = true := fun h => hpointer (Decoded.has_iff.1 h)
  rw [← exists_operand?_iff hrow hsize hkind]
  simp only [Plan.address_ok_iff, if_neg hhas]

omit hc in
/-- A demand on the operand of a kind, by operation and by mnemonic. -/
theorem demand_iff {mnemonics : List String} {operations : List Operation} {kind : OperandKind}
    (hnames : Names mnemonics operations kind) (P : Nat → Prop) {Q : Nat → Prop}
    (hPQ : ∀ x, P x ↔ Q x) :
    (row.operation ∈ operations → ∃ x, (c.decodedAs row).operand? kind = some x ∧ P x) ↔
      (row.mnemonic ∈ mnemonics → ∀ x, (kind, x) ∈ (c.decodedAs row).fields → Q x) := by
  obtain ⟨hmnemonic, hkind⟩ := hnames row hrow
  rw [hmnemonic]
  refine forall_congr' fun hoperation => ?_
  rw [exists_operand?_iff hrow hsize (hkind hoperation)]
  exact forall_congr' fun x => imp_congr_right fun _ => hPQ x

/-- Planning checks what the instruction asks of the chip, no less and no more. -/
theorem admits_iff : Admits c row.mnemonic (c.decodedAs row).fields ↔
    Plan.checkRegisters (c.decodedAs row) c.storage = .ok () ∧
      Plan.Demands (c.decodedAs row) c.storage := by
  have hbits := Config.bits_of_width? hc.width
  have hvalid := Config.validate_ok_iff.1 hc.valid
  have hram : c.storage.memory.ram.size = c.config.ramSize := hc.storage.memory.ram.size
  have hdigital : c.storage.io.digital.len = c.config.digital := hc.storage.io.digital.length
  have hstatus : c.storage.status.len = 16 := hc.storage.status.length.trans statusBits_eq
  have hwidth : (c.decodedAs row).width.bits = c.config.bits := hbits
  have hregisters := checkRegisters_iff hc hrow hsize
  have hpush : c.width.wrap ((c.storage.sp : Int) - 1) < c.storage.memory.ram.size ↔
      ((c.storage.sp : Int) - 1) % 2 ^ c.config.bits < c.config.ramSize := by
    rw [← hbits, ← c.width.natCast_wrap, Int.ofNat_lt, hram]
  have hpin := demand_iff hrow hsize pin_names (fun x => x < c.storage.io.digital.len)
    fun x => by rw [hdigital]
  have hio := demand_iff hrow hsize io_names c.storage.io.Answers (answers_iff hc.storage.io hvalid)
  have hstatusBit := demand_iff hrow hsize statusBit_names (fun x => x < c.storage.status.len)
    fun x => by rw [hstatus]
  have hregisterBit := demand_iff hrow hsize registerBit_names
    (fun x => x < (c.decodedAs row).width.bits) fun x => by rw [hwidth]
  constructor
  · intro h
    refine ⟨hregisters.2 ⟨h.register, h.pointer⟩, ?_⟩
    exact {
      ram := by
        intro hoperation
        by_cases hkind : .pointer ∈ row.operands
        · have hmnemonic := (indirect_mnemonic_iff row hrow).2 ⟨hoperation, hkind⟩
          rw [address_indirect_iff hc hrow hsize hkind h.pointer, hram]
          exact h.indirect hmnemonic
        · have hmnemonic := (direct_mnemonic_iff row hrow).2 ⟨hoperation, hkind⟩
          have haddress := direct_address row hrow hoperation hkind
          rw [address_direct_iff hrow hsize hkind haddress, hram]
          exact h.direct hmnemonic
      push := fun hoperation => hpush.2 (h.push ((push_mnemonic_iff row hrow).2 hoperation))
      pop := fun hoperation => hram ▸ h.pop ((pop_mnemonic_iff row hrow).2 hoperation)
      io := hio.2 h.io
      pin := hpin.2 h.pin
      statusBit := hstatusBit.2 h.statusBit
      registerBit := hregisterBit.2 h.registerBit }
  · intro ⟨hchecked, hdemands⟩
    obtain ⟨hregister, hpointer⟩ := hregisters.1 hchecked
    exact {
      register := hregister
      pointer := hpointer
      indirect := by
        intro hmnemonic
        obtain ⟨hoperation, hkind⟩ := (indirect_mnemonic_iff row hrow).1 hmnemonic
        rw [← address_indirect_iff hc hrow hsize hkind hpointer, ← hram]
        exact hdemands.ram hoperation
      direct := by
        intro hmnemonic
        obtain ⟨hoperation, hkind⟩ := (direct_mnemonic_iff row hrow).1 hmnemonic
        have haddress := direct_address row hrow hoperation hkind
        rw [← address_direct_iff hrow hsize hkind haddress, ← hram]
        exact hdemands.ram hoperation
      push := fun hmnemonic => hpush.1 (hdemands.push ((push_mnemonic_iff row hrow).1 hmnemonic))
      pop := fun hmnemonic => hram ▸ hdemands.pop ((pop_mnemonic_iff row hrow).1 hmnemonic)
      pin := hpin.1 hdemands.pin
      statusBit := hstatusBit.1 hdemands.statusBit
      registerBit := hregisterBit.1 hdemands.registerBit
      io := hio.1 hdemands.io }

end

/-! ### Cycles -/

variable {c : Chip}

theorem exists_cycle_ok_iff_ready (hc : c.Conforms instructionSet c.config) :
    (∃ flow, c.cycle.1 = .ok flow) ↔ Ready c := by
  rw [Chip.exists_cycle_ok_iff hc.hasRoom]
  constructor
  · intro ⟨row, hat, hsize, hplan⟩
    obtain ⟨cell, hcell, hget⟩ := (rowAt?_eq_some_iff hc.instructions).1 hat
    have hrow := List.mem_of_getElem? hget
    obtain ⟨hlt, -⟩ := List.getElem?_eq_some_iff.1 hget
    have hle : cell ≤ 0x2E := Nat.le_of_lt_succ hlt
    rw [Plan.exists_of_iff (decodedAs_complete hrow hsize), ← admits_iff hc hrow hsize] at hplan
    exact ⟨cell, row, hcell, hle, hget, hsize, hplan⟩
  · intro ⟨cell, row, hcell, _, hget, hsize, hadmits⟩
    have hrow := List.mem_of_getElem? hget
    refine ⟨row, (rowAt?_eq_some_iff hc.instructions).2 ⟨cell, hcell, hget⟩, hsize, ?_⟩
    rw [Plan.exists_of_iff (decodedAs_complete hrow hsize), ← admits_iff hc hrow hsize]
    exact hadmits

end M1047

end Microcontroller
