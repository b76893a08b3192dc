import Microcontroller.Bits.Field
import Microcontroller.Chip.Fault
import Microcontroller.Isa.Flag
import Microcontroller.Word.Cells
/-!
# What a chip stores

Memory, I/O banks, and the whole of a chip's storage: registers, status register, memory, banks,
stack pointer, instruction pointer and cycle counter.
-/

namespace Microcontroller

/-- RAM, and ROM where the chip has it. -/
structure Memory where
  ram : Cells
  rom : Option Cells

namespace Memory

def zero (config : Config) (w : Width) : Memory where
  ram := Cells.zero w false config.ramSize
  rom := if config.hasRom then some (Cells.zero w false config.romSize) else none

/-- The memory that programs run from: ROM, or RAM on a chip without ROM. -/
def program (m : Memory) : Cells := m.rom.getD m.ram

def programRegion (m : Memory) : Region := if m.rom.isSome then .rom else .ram

def read (m : Memory) (address : Nat) : Except Error Nat := m.ram.raw? address

def write (m : Memory) (address value : Nat) : Except Error Memory := do
  return { m with ram := ← m.ram.setRaw address value }

def loadRam (m : Memory) (offset : Nat) (cells : List Nat) : Except Error Memory := do
  return { m with ram := ← m.ram.load offset cells }

def loadProgram (m : Memory) (offset : Nat) (cells : List Nat) : Except Error Memory :=
  match m.rom with
  | some rom => do return { m with rom := some (← rom.load offset cells) }
  | none => m.loadRam offset cells

def clear (m : Memory) : Memory := ⟨m.ram.clear, m.rom.map Cells.clear⟩

end Memory

/-- Digital pins, analog channels and mapped channels. -/
structure IoBanks where
  digital : BitField
  analog : Cells
  mapped : Cells

namespace IoBanks

def zero (config : Config) (w : Width) : IoBanks where
  digital := BitField.zero config.digital
  analog := Cells.zero w false config.analog
  mapped := Cells.zero w false config.mapped

def pin (b : IoBanks) (index : Nat) : Except Error Bool := b.digital.get index

def setPin (b : IoBanks) (index : Nat) (value : Bool) : Except Error IoBanks := do
  return { b with digital := ← b.digital.set index value }

def setAnalog (b : IoBanks) (channel value : Nat) : Except Error IoBanks := do
  return { b with analog := ← b.analog.setRaw channel value }

def setMapped (b : IoBanks) (channel value : Nat) : Except Error IoBanks := do
  return { b with mapped := ← b.mapped.setRaw channel value }

/-- What is read at a target; none where the target is not in the banks. -/
def read (b : IoBanks) : AddressMap.Target → Option (Except Error Nat)
  | .digital group => some ((b.digital.unit group).map BitVec.toNat)
  | .analog channel => some (b.analog.raw? channel)
  | .mapped channel => some (b.mapped.raw? channel)
  | .stackPointer | .reserved => none

/-- Write to a target, of which a group of pins takes the low byte; none where the target is not in
the banks. -/
def write (b : IoBanks) (target : AddressMap.Target) (value : Nat) :
    Option (Except Error IoBanks) :=
  match target with
  | .digital group => some do
      return { b with digital := ← b.digital.setUnit group (BitVec.ofNat 8 value) }
  | .analog channel => some (b.setAnalog channel value)
  | .mapped channel => some (b.setMapped channel value)
  | .stackPointer | .reserved => none

/-- Replace all three banks, each by exactly as much as it holds, or none of them. -/
def load (b : IoBanks) (digital : List Byte) (analog mapped : List Nat) : Except Error IoBanks :=
  if analog.length ≠ b.analog.size then .error (.outOfBounds analog.length b.analog.size)
  else if mapped.length ≠ b.mapped.size then .error (.outOfBounds mapped.length b.mapped.size)
  else do
    let digital ← b.digital.loadBytes digital
    let analog ← b.analog.load 0 analog
    let mapped ← b.mapped.load 0 mapped
    return { digital, analog, mapped }

def clear (b : IoBanks) : IoBanks := ⟨b.digital.clear, b.analog.clear, b.mapped.clear⟩

end IoBanks

structure Storage where
  registers : Cells
  status : BitField
  memory : Memory
  io : IoBanks
  sp : Nat
  ip : Nat
  /-- The cycles that have been executed. It is counted here without an end; `Chip.cycle?` looks for room
  in the 64 bits of the counter. -/
  cycles : Nat

namespace Storage

def zero (config : Config) (w : Width) (statusBits : Nat) : Storage where
  registers := Cells.zero w false config.registers
  status := BitField.zero statusBits
  memory := Memory.zero config w
  io := IoBanks.zero config w
  sp := 0
  ip := 0
  cycles := 0

def clear (s : Storage) : Storage where
  registers := s.registers.clear
  status := s.status.clear
  memory := s.memory.clear
  io := s.io.clear
  sp := 0
  ip := 0
  cycles := 0

/-- The value of a flag; a flag that the status register has no room for is false. -/
def flag (s : Storage) (layout : FlagLayout) (f : Flag) : Bool :=
  let index := layout.index f
  index < s.status.len && s.status.bit index

/-- Storage after one more executed instruction. -/
def countCycle (s : Storage) : Storage := { s with cycles := s.cycles + 1 }

end Storage

end Microcontroller
