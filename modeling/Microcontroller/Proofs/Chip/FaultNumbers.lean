import Microcontroller.Proofs.Chip.Reachable
import Microcontroller.Proofs.Chip.Report
import Microcontroller.Proofs.Image.Snapshot
/-!
# Faults hold machine integers

Where the sizes in a configuration are machine integers, so are the numbers in every fault. Words are,
because a word has at most 32 bits; indexes into storage are, because each is a word or comes from a
pair of words; and so are the lengths that a fault holds these against. Nothing is asked of the table:
an instruction that lacks an operand fails with its opcode, which is a byte.
-/

namespace Microcontroller

variable {set : InstructionSet} {config : Config} {w : Width} {d : Decoded} {s : Storage}

/-! ### Lengths -/

theorem Config.Bounded.ramSize_lt (h : config.Bounded) : config.ramSize < 2 ^ 32 :=
  Nat.lt_of_le_of_lt (Nat.min_le_left _ _) h.ram

theorem Config.Bounded.romSize_lt (h : config.Bounded) : config.romSize < 2 ^ 32 :=
  Nat.lt_of_le_of_lt (Nat.min_le_left _ _) h.rom

theorem BitField.unitsFor_lt {len : Nat} (h : len < 2 ^ 32) : unitsFor len < 2 ^ 32 := by
  rw [unitsFor]
  omega

theorem InstructionSet.statusBits_lt (set : InstructionSet) : set.statusBits < 2 ^ 32 :=
  Nat.lt_of_le_of_lt set.flags.statusBits_le (by decide)

theorem Storage.Conforms.length_lt (hs : s.Conforms config w set.statusBits)
    (hconfig : config.Bounded) {region : Region} {len : Nat} (hlen : len ∈ s.lengths w region) :
    len < 2 ^ 32 := by
  have hword : w.bits < 2 ^ 32 := by cases w <;> decide
  have hregisters : s.registers.size = config.registers := hs.registers.size
  have hram : s.memory.ram.size = config.ramSize := hs.memory.ram.size
  have hanalog : s.io.analog.size = config.analog := hs.io.analog.size
  have hmapped : s.io.mapped.size = config.mapped := hs.io.mapped.size
  cases region <;> simp only [lengths, List.mem_cons, List.not_mem_nil, or_false, hregisters, hram,
    hs.status.length, hs.io.digital.units, hs.io.digital.length, hanalog, hmapped] at hlen
  case registers =>
    rcases hlen with rfl | rfl
    · exact hconfig.registers
    · exact hword
  case status => exact hlen ▸ set.statusBits_lt
  case ram | stack => exact hlen ▸ hconfig.ramSize_lt
  case digital =>
    rcases hlen with rfl | rfl
    · exact BitField.unitsFor_lt hconfig.digital
    · exact hconfig.digital
  case analog => exact hlen ▸ hconfig.analog
  case mapped => exact hlen ▸ hconfig.mapped

/-! ### Faults of planning -/

namespace Plan

variable (hs : s.Conforms config w set.statusBits) (hd : d.Fits w)

include hs hd

theorem Index.lt {index : Nat} (h : Index d s index) : index < 2 ^ 64 := by
  have hword {x : Nat} (hx : x < w.capacity) : x < 2 ^ 64 :=
    Nat.lt_trans (Width.lt_of_lt_capacity hx) (by decide)
  cases h with
  | cell hx => exact hword (hd.lt _ hx)
  | place hx => exact Nat.lt_of_le_of_lt (AddressMap.index_resolve_le _) (hword (hd.lt _ hx))
  | pair p =>
    rw [pairWord, hd.width]
    exact Width.join_lt (hs.registers.getD_lt p.2) (hs.registers.getD_lt p.1)
  | pushed => exact hword (hd.width ▸ d.width.wrap_lt _)
  | top => exact hword hs.sp

theorem Reports.bounded (hconfig : config.Bounded) {fault : Fault} (h : Reports d s fault) :
    fault.Bounded := by
  have hip := Width.lt_of_lt_capacity hs.ip
  have hlength {region : Region} {len : Nat} (hlen : len ∈ s.lengths d.width region) :
      len < 2 ^ 32 :=
    hs.length_lt hconfig (hd.width ▸ hlen)
  cases h with
  | lacking => exact ⟨hip, Nat.lt_trans d.instruction.opcode.isLt (by decide)⟩
  | outside hlen hindex => exact ⟨hip, hindex.lt hs hd, Nat.lt_trans (hlength hlen) (by decide)⟩
  | pair hx =>
    have hsize : s.registers.size < 2 ^ 32 := @hlength .registers _ List.mem_cons_self
    have hcell : Index d s _ := .cell (Decoded.mem_operands hx)
    exact ⟨hip, hcell.lt hs hd, Nat.lt_trans hsize (by decide)⟩
  | unmapped haddress =>
    have hsize : s.io.mapped.size < 2 ^ 32 := @hlength .mapped _ List.mem_cons_self
    have hcell : Index d s _ := .cell haddress
    refine ⟨hip, hcell.lt hs hd, ?_⟩
    rw [AddressMap.mappedBase]
    omega

end Plan

/-! ### Faults of a cycle -/

namespace Chip

variable {c : Chip}

theorem Conforms.program_size_lt (h : c.Conforms set config) (hconfig : config.Bounded) :
    c.program.size < 2 ^ 32 := by
  rw [program, Memory.program]
  cases hrom : c.storage.memory.rom with
  | none => exact h.storage.memory.ram.size ▸ hconfig.ramSize_lt
  | some rom => exact (h.storage.memory.rom rom hrom).size ▸ hconfig.romSize_lt

theorem Conforms.fetch_fails (h : c.Conforms set config) (hconfig : config.Bounded) {fault : Fault}
    {size : Nat} (hfetch : c.fetch c.storage.ip = .error (fault, size)) : fault.Bounded := by
  have hip := Width.lt_of_lt_capacity h.storage.ip
  have hsize := h.program_size_lt hconfig
  rcases fetch_cases c c.storage.ip with
    ⟨-, hf⟩ | ⟨cell, hcell, -, hf⟩ | ⟨row, -, -, hf⟩ | ⟨_, -, -, hf⟩
  all_goals cases hf.symm.trans hfetch
  · exact ⟨hip, by omega, by omega⟩
  · have hlt := h.storage.memory.program_lt (Array.mem_of_getElem? hcell)
    exact ⟨hip, Width.lt_of_lt_capacity hlt⟩
  · exact ⟨hip, by omega, by omega⟩

theorem Conforms.cycle_fails (h : c.Conforms set config) (hconfig : config.Bounded) :
    Fails Fault.Bounded c.cycle.1 := by
  intro fault hfault
  rw [cycle_eq h.hasRoom] at hfault
  cases hfetch : c.fetch c.storage.ip with
  | error stop =>
    rw [hfetch] at hfault
    cases hfault
    exact h.fetch_fails hconfig hfetch
  | ok d =>
    obtain ⟨row, -, -, rfl⟩ := fetch_ok_iff.1 hfetch
    simp only [hfetch] at hfault
    split at hfault <;> cases hfault
    next herror =>
      exact (Plan.of_reports _ herror).bounded h.storage (h.decodedAs_fits row) hconfig

end Chip

end Microcontroller
