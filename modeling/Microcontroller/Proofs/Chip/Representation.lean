import Microcontroller.Isa.M1047
import Microcontroller.Proofs.Configuration
import Microcontroller.Proofs.Chip.Reachable
/-!
# The representation invariant

What a configuration promises about the storage of its chip, and that no sequence of host calls on a
reachable chip breaks the promise: rows keep their lengths, with memory cut off where a word cannot
address it; no cell and neither pointer outgrows a word; the status register keeps its width, which
is more than the position of any flag; and no pin is set past the last.
-/

namespace Microcontroller.Chip

/-- Storage of the sizes that `config` asks for, with every word in it a word. -/
structure Represents (set : InstructionSet) (config : Config) (c : Chip) : Prop where
  configuration : c.config = config
  bits : c.width.bits = config.bits
  registers : c.storage.registers.Fits c.width config.registers
  ram : c.storage.memory.ram.Fits c.width (min config.ram (2 ^ config.bits))
  rom_isSome : c.storage.memory.rom.isSome ↔ 0 < config.rom
  rom : ∀ rom ∈ c.storage.memory.rom, rom.Fits c.width (min config.rom (2 ^ config.bits))
  analog : c.storage.io.analog.Fits c.width config.analog
  mapped : c.storage.io.mapped.Fits c.width config.mapped
  sp : c.storage.sp < 2 ^ config.bits
  ip : c.storage.ip < 2 ^ config.bits
  status : c.storage.status.Tidy set.statusBits
  position : ∀ f, set.flags.index f < set.statusBits
  digital : c.storage.io.digital.Tidy config.digital

variable {set : InstructionSet} {config : Config} {c : Chip}

theorem Conforms.represents (h : c.Conforms set config) : c.Represents set config := by
  have hs := h.storage
  have hbits := Config.bits_of_width? h.width
  have hspace := Config.addressSpace_of_width? h.width
  have hcapacity : c.width.capacity = 2 ^ config.bits := by rw [Width.capacity, hbits]
  have hram := hs.memory.ram
  have hrom := hs.memory.rom
  rw [Config.ramSize, hspace] at hram
  rw [Config.romSize, hspace] at hrom
  exact {
    configuration := h.configuration
    bits := hbits
    registers := hs.registers
    ram := hram
    rom_isSome := by rw [hs.memory.rom_isSome, Config.hasRom, decide_eq_true_eq]
    rom := hrom
    analog := hs.io.analog
    mapped := hs.io.mapped
    sp := hcapacity ▸ hs.sp
    ip := hcapacity ▸ hs.ip
    status := hs.status
    position := set.flags.index_lt_statusBits
    digital := hs.io.digital }

theorem Conforms.foldl_perform (h : c.Conforms set config) (calls : List HostCall) :
    (calls.foldl Chip.perform c).Conforms set config := by
  induction calls generalizing c with
  | nil => exact h
  | cons call rest ih => exact ih (h.perform call)

/-- Whatever calls a host makes on a chip, and in whatever order, the chip goes on representing what
its configuration laid out. -/
theorem calls_represent (h : Reachable set c) (calls : List HostCall) :
    (calls.foldl perform c).Represents set c.config :=
  (h.conforms.foldl_perform calls).represents

/-- A program that sends a byte to the stack pointer and returns to the cell there, on a chip with
two cells of RAM: both pointers move, and neither leaves its range. -/
theorem calls_represent_return :
    let config : Config := { Config.m1047 with registers := 1, ram := 2, rom := 8, mapped := 0 }
    let c := blank M1047.instructionSet config .w8 .halt
    let calls := [.loadProgram 0 [0x21, 0x1D, 0, 0x2D], .loadRam 0 [7, 0x1FF], .setRegister 0 1,
      .boot, .run 2, .setPin 4 true]
    Reachable M1047.instructionSet c ∧ (calls.foldl perform c).storage.ip = 0xFF ∧
      (calls.foldl perform c).Represents M1047.instructionSet config := by
  intro config c calls
  have hc : Reachable M1047.instructionSet c :=
    .new (show new M1047.instructionSet config .halt = .ok c from rfl)
  have hip : (calls.foldl perform c).storage.ip = 0xFF := by decide +kernel
  exact ⟨hc, hip, calls_represent hc calls⟩

end Microcontroller.Chip
