import Microcontroller.Proofs.M1047.Admission
/-!
# What the faults of the M1047 say

A fault of the family is of the instruction at the instruction pointer, and the size in it is that of
the storage that it names. The index in it is past that size, with one exception: a pointer whose pair
of registers is not there is reported by its number, and not by that of a register.
-/

namespace Microcontroller.M1047

/-- The instruction at the instruction pointer has one of these mnemonics. -/
def AtInstruction (c : Chip) (mnemonics : List String) : Prop :=
  ∃ row, c.rowAt? c.storage.ip = some row ∧ row.mnemonic ∈ mnemonics

/-- The size of the storage that a fault names. Bits are counted in a word by the instructions on bits
of registers, and pins one by one or, by input and output, in ports of eight. -/
def IsSize (c : Chip) (region : Region) (len : Nat) : Prop :=
  match region with
  | .registers => len = c.config.registers ∨
      AtInstruction c ["BST", "BLD"] ∧ len = c.config.bits
  | .status => len = 16
  | .ram | .stack => len = c.config.ramSize
  | .rom => len = c.config.romSize
  | .digital => AtInstruction c ["SBI", "CBI"] ∧ len = c.config.digital ∨
      AtInstruction c ["IN", "OUT"] ∧ len = (c.config.digital + 7) / 8
  | .analog => len = c.config.analog
  | .mapped => len = c.config.mapped
  | .io => len = 0x20 + c.config.mapped

/-- The index is the number of a pointer of the instruction, and the registers of that pointer are not
there. -/
def MissingPair (c : Chip) (index : Nat) : Prop :=
  ∃ row, c.rowAt? c.storage.ip = some row ∧
    (.pointer, index) ∈ row.operands.zip (c.operandsAt c.storage.ip row) ∧
    ¬ (index ≤ 2 ∧ 6 - 2 * index ≤ c.config.registers)

/-- A fault is of the instruction at the instruction pointer and says what is not there. -/
structure Truthful (c : Chip) (fault : Fault) : Prop where
  ip : fault.ip = c.storage.ip
  size : ∀ ip region index len, fault = .bounds ip region index len → IsSize c region len
  index : ∀ ip region index len, fault = .bounds ip region index len → region ≠ .io →
    len ≤ index ∨ region = .registers ∧ len = c.config.registers ∧ MissingPair c index

variable {c : Chip} {row : Instruction} {region : Region} {index len : Nat} {fault : Fault}

theorem Truthful.illegal (opcode : Nat) : Truthful c (.illegalInstruction c.storage.ip opcode) :=
  ⟨rfl, nofun, nofun⟩

theorem Truthful.bounds (hsize : IsSize c region len) (hindex : region ≠ .io →
    len ≤ index ∨ region = .registers ∧ len = c.config.registers ∧ MissingPair c index) :
    Truthful c (.bounds c.storage.ip region index len) where
  ip := rfl
  size := by
    rintro _ _ _ _ ⟨⟩
    exact hsize
  index := by
    rintro _ _ _ _ ⟨⟩
    exact hindex

section

variable (hc : c.Conforms instructionSet c.config)

include hc

/-! ### Fetching -/

theorem isSize_program : IsSize c c.storage.memory.programRegion c.program.size := by
  rw [Memory.programRegion, Chip.program, Memory.program]
  cases hrom : c.storage.memory.rom with
  | none => exact hc.storage.memory.ram.size
  | some rom => exact (hc.storage.memory.rom rom hrom).size

theorem truthful_of_fetch {size : Nat} (h : c.fetch c.storage.ip = .error (fault, size)) :
    Truthful c fault := by
  have hprogram := isSize_program hc
  rcases Chip.fetch_cases c c.storage.ip with
    ⟨hcell, hf⟩ | ⟨cell, -, -, hf⟩ | ⟨row, -, -, hf⟩ | ⟨_, -, -, hf⟩
  all_goals cases hf.symm.trans h
  · exact .bounds hprogram fun _ => .inl (Array.getElem?_eq_none_iff.1 hcell)
  · exact .illegal cell
  · exact .bounds hprogram fun _ => .inl (Nat.le_refl _)

/-! ### Planning -/

variable (hrow : row ∈ rows) (hat : c.rowAt? c.storage.ip = some row)

include hrow hat

theorem isSize_of_seeks (h : Plan.Seeks (c.decodedAs row) c.storage region index len) :
    IsSize c region len := by
  cases h with
  | register => exact .inl hc.storage.registers.size
  | registerBit hop =>
    exact .inr ⟨⟨row, hat, (registerBit_names row hrow).1.2 hop⟩, Config.bits_of_width? hc.width⟩
  | statusBit => exact hc.storage.status.length.trans statusBits_eq
  | ram | pushed | top => exact hc.storage.memory.ram.size
  | pin hop =>
    exact .inl ⟨⟨row, hat, (pin_names row hrow).1.2 hop⟩, hc.storage.io.digital.length⟩
  | port hop =>
    exact .inr ⟨⟨row, hat, (io_names row hrow).1.2 hop⟩, hc.storage.io.digital.units⟩
  | analog => exact hc.storage.io.analog.size
  | mapped => exact hc.storage.io.mapped.size

theorem truthful_of_misses (hsize : c.storage.ip + row.size ≤ c.program.size)
    (h : Plan.Misses (c.decodedAs row) c.storage fault) : Truthful c fault := by
  have hregisters : c.storage.registers.size = c.config.registers := hc.storage.registers.size
  cases h with
  | lacking hlacking => exact absurd (decodedAs_complete hrow hsize) hlacking
  | outside hplace hle => exact .bounds (isSize_of_seeks hc hrow hat hplace) fun _ => .inl hle
  | @pair index hx hnone =>
    have hmissing : ¬ (index ≤ 2 ∧ 6 - 2 * index ≤ c.config.registers) := by
      intro hthere
      rw [← hregisters] at hthere
      exact nomatch hnone.symm.trans (Pointer.pair?_ofIndex?_eq_some_iff.2 ⟨hthere, rfl⟩)
    exact .bounds (.inl hregisters) fun _ =>
      .inr ⟨rfl, hregisters, row, hat, (operand?_iff hrow hsize).1 hx, hmissing⟩
  | unmapped =>
    have hmapped : c.storage.io.mapped.size = c.config.mapped := hc.storage.io.mapped.size
    exact .bounds (congrArg (0x20 + ·) hmapped) (absurd rfl)

end

/-! ### Cycles -/

/-- The fault of a cycle is at the instruction pointer, the size in it is that of the storage that it
names, and the index in it is past that size; only for a pointer whose registers are not there it is the
number of the pointer, whatever the number of registers. -/
theorem fault_reports (hc : Chip.Reachable instructionSet c) (h : c.cycle.1 = .error fault) :
    Truthful c fault := by
  have hconforms := hc.conforms
  cases hfetch : c.fetch c.storage.ip with
  | error stop =>
    rw [Chip.cycle_of_fetch_error hfetch] at h
    cases h
    exact truthful_of_fetch hconforms hfetch
  | ok d =>
    obtain ⟨row, hat, hsize, -⟩ := Chip.fetch_ok_iff.1 hfetch
    obtain ⟨cell, -, hget⟩ := (rowAt?_eq_some_iff hconforms.instructions).1 hat
    rw [Chip.cycle_of_row hconforms.hasRoom hat hsize] at h
    split at h <;> cases h
    next hplan =>
      exact truthful_of_misses hconforms (List.mem_of_getElem? hget) hat hsize
        (Plan.of_misses _ hplan)

/-- A load through a pointer that does not exist, on a chip with eight registers. -/
def unpaired : Chip :=
  (Chip.blank instructionSet { Config.m1047 with ram := 1, rom := 3, mapped := 0 } .w8 .halt).perform
    (.loadProgram 0 [0x1A, 0, 3])

theorem unpaired_reachable : Chip.Reachable instructionSet unpaired :=
  .perform _ (.new (show Chip.new instructionSet
    { Config.m1047 with ram := 1, rom := 3, mapped := 0 } .halt = .ok (Chip.blank _ _ _ _) from rfl))

/-- The number of the pointer is in the fault of this load, although a register has this number. -/
theorem fault_reports_pointer :
    Chip.Reachable instructionSet unpaired ∧
      unpaired.cycle.1 = .error (.bounds 0 .registers 3 8) ∧
      Truthful unpaired (.bounds 0 .registers 3 8) ∧ MissingPair unpaired 3 := by
  have hfault : unpaired.cycle.1 = .error (.bounds 0 .registers 3 8) := by decide +kernel
  have htruthful := fault_reports unpaired_reachable hfault
  refine ⟨unpaired_reachable, hfault, htruthful, ?_⟩
  have hindex := htruthful.index 0 .registers 3 8 rfl (by decide)
  exact (hindex.resolve_left (by decide)).2.2

/-- The index in a fault is not always past the size that it is reported with. -/
theorem not_index_past_size : ¬ ∀ (c : Chip) (fault : Fault), Chip.Reachable instructionSet c →
    c.cycle.1 = .error fault → ∀ ip region index len, fault = .bounds ip region index len →
      region ≠ .io → len ≤ index := by
  intro h
  have hfault : unpaired.cycle.1 = .error (.bounds 0 .registers 3 8) := by decide +kernel
  exact absurd (h _ _ unpaired_reachable hfault 0 .registers 3 8 rfl (by decide)) (by decide)

end Microcontroller.M1047
