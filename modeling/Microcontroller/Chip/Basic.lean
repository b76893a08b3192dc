import Microcontroller.Chip.Execute
import Microcontroller.Image.Snapshot
import Microcontroller.Isa.Assembly
/-!
# Chips

A chip is storage laid out by a configuration, with an instruction set, a life, and the fault that
stopped it, if one did. Every operation of the host is a function from a chip to a chip; those that
can be refused leave the chip as it was.
-/

namespace Microcontroller

inductive ChipError where
  | spec (cause : Error)
  | invalidConfiguration (cause : ConfigError)
  | fault (cause : Fault)
  | alreadyBooted
  | poisoned
  | driverPanicked
  | snapshot (cause : SnapshotError)
  deriving DecidableEq

def ChipError.message : ChipError → String
  | spec cause => "Spec error: " ++ cause.message
  | invalidConfiguration cause => "Invalid configuration: " ++ cause.message
  | fault cause => "Fault: " ++ cause.message
  | alreadyBooted => "Chip is already booted"
  | poisoned => "Chip lock poisoned"
  | driverPanicked => "Driver thread panicked"
  | snapshot cause => "Snapshot error: " ++ cause.message

structure Chip where
  instructions : InstructionSet
  config : Config
  width : Width
  policy : FaultPolicy
  storage : Storage
  lifecycle : Lifecycle
  /-- How often it has been booted. A chip is taken to be booted fewer than `2 ^ 64` times; `Chip.boot?`
  is the boot of a counter of 64 bits. -/
  boots : Nat
  /-- The last fault, until it is cleared. -/
  fault : Option Fault

namespace Chip

/-- A chip with nothing in its storage. -/
def new (instructions : InstructionSet) (config : Config) (policy : FaultPolicy) :
    Except ChipError Chip := do
  config.validate.mapError .invalidConfiguration
  match config.width? with
  | none => throw (.invalidConfiguration .unsupportedBits)
  | some width =>
    return {
      instructions, config, width, policy
      storage := Storage.zero config width instructions.statusBits
      lifecycle := .constructed
      boots := 0
      fault := none }

/-! ### Life -/

/-- The first boot after construction or reset starts with all flags down; one after a halt goes on
where the chip stopped. -/
def boot (c : Chip) : Except ChipError Chip :=
  let booted (s : Storage) : Chip :=
    { c with storage := s, lifecycle := .booted, boots := c.boots + 1 }
  match c.lifecycle with
  | .booted => .error .alreadyBooted
  | .constructed => .ok (booted { c.storage with status := c.storage.status.clear })
  | .halted => .ok (booted c.storage)

def halt (c : Chip) : Chip :=
  match c.lifecycle with
  | .booted => { c with lifecycle := .halted }
  | .constructed | .halted => c

/-- Back to construction, but for the number of boots. -/
def reset (c : Chip) : Chip :=
  { c with storage := c.storage.clear, lifecycle := .constructed, fault := none }

def isBooted (c : Chip) : Bool := c.lifecycle = .booted

/-! ### Cycles -/

/-- The instruction at an address of program memory, or the fault of trying to execute it and the
number of cells to go past. -/
def fetch (c : Chip) (address : Nat) : Except (Fault × Nat) Decoded :=
  let program := c.storage.memory.program
  match c.instructions.decodeAt c.width program.raw address with
  | .ok d => .ok d
  | .error (.unknownOpcode opcode) => .error (.illegalInstruction address opcode.toNat, 1)
  | .error (.invalidCell cell) => .error (.illegalInstruction address cell, 1)
  | .error (.truncated _ needed available) =>
    .error (.bounds address c.storage.memory.programRegion (address + available) program.size,
      needed)

/-- Where the instruction pointer stands after an instruction of `size` cells. -/
def after (c : Chip) (size : Nat) : Nat := c.width.wrap (c.storage.ip + size)

def advance (c : Chip) (flow : Flow) (size : Nat) : Chip :=
  let ip := match flow with
    | .jump target => target
    | .next | .stop => c.after size
  { c with
    storage := { c.storage.countCycle with ip }
    lifecycle := if flow = .stop then .halted else c.lifecycle }

/-- The chip after a fault in an instruction of `size` cells. -/
def stopAt (c : Chip) (fault : Fault) (size : Nat) : Chip :=
  let ip := match c.policy with
    | .halt => c.storage.ip
    | .skip => c.after size
  { c with
    storage := { c.storage with ip }
    lifecycle := .halted
    fault := some fault }

/-- Execute the instruction at the instruction pointer, whatever the chip's stage of life. -/
def cycle (c : Chip) : Except Fault Flow × Chip :=
  match c.fetch c.storage.ip with
  | .error (fault, size) => (.error fault, c.stopAt fault size)
  | .ok d =>
    match c.storage.execute c.instructions.flags d with
    | (.ok flow, s) => (.ok flow, { c with storage := s }.advance flow d.size)
    | (.error fault, s) => (.error fault, { c with storage := s }.stopAt fault d.size)

inductive StopReason where
  /-- The program ended. -/
  | program
  | fault (cause : Fault)
  | limit
  deriving DecidableEq

structure RunSummary where
  /-- Cycles, the faulting one included. -/
  cycles : Nat
  reason : StopReason
  deriving DecidableEq

/-- Cycles after the `done` ones that went before. -/
def runFrom (done : Nat) : Nat → Chip → RunSummary × Chip
  | 0, c => (⟨done, .limit⟩, c)
  | limit + 1, c =>
    match c.cycle with
    | (.ok .stop, c) => (⟨done + 1, .program⟩, c)
    | (.ok .next, c) => runFrom (done + 1) limit c
    | (.ok (.jump _), c) => runFrom (done + 1) limit c
    | (.error fault, c) => (⟨done + 1, .fault fault⟩, c)

/-- At most `limit` cycles, up to the end of the program or a fault. -/
def run (c : Chip) (limit : Nat) : RunSummary × Chip := runFrom 0 limit c

def disassembleAt (c : Chip) (address : Nat) : Except ChipError String :=
  match c.fetch address with
  | .ok d => .ok d.text
  | .error (fault, _) => .error (.fault fault)

/-! ### Host access -/

def withMemory (c : Chip) (memory : Except Error Memory) : Except ChipError Chip := do
  let memory ← memory.mapError .spec
  return { c with storage.memory := memory }

def loadProgram (c : Chip) (offset : Nat) (cells : List Nat) : Except ChipError Chip :=
  c.withMemory (c.storage.memory.loadProgram offset cells)

def loadRam (c : Chip) (offset : Nat) (cells : List Nat) : Except ChipError Chip :=
  c.withMemory (c.storage.memory.loadRam offset cells)

def setRegister (c : Chip) (index : Nat) (value : Int) : Except ChipError Chip := do
  let registers ← (c.storage.registers.set index value).mapError .spec
  return { c with storage.registers := registers }

def register (c : Chip) (index : Nat) : Except ChipError Nat :=
  (c.storage.registers.raw? index).mapError .spec

/-- Set a flag; one that the status register has no room for stays as it is. -/
def setFlag (c : Chip) (f : Flag) (value : Bool) : Chip :=
  match c.storage.status.set (c.instructions.flags.index f) value with
  | .ok status => { c with storage.status := status }
  | .error _ => c

def flag (c : Chip) (f : Flag) : Bool := c.storage.flag c.instructions.flags f

def setStackPointer (c : Chip) (sp : Nat) : Chip :=
  { c with storage.sp := c.width.truncate sp }

def setInstructionPointer (c : Chip) (ip : Nat) : Chip :=
  { c with storage.ip := c.width.truncate ip }

def withIo (c : Chip) (change : IoBanks → Except Error IoBanks) : Except Error Chip := do
  let io ← change c.storage.io
  return { c with storage.io := io }

def clearFault (c : Chip) : Chip := { c with fault := none }

/-- Load a program into a new chip and run it. -/
def runProgram (instructions : InstructionSet) (config : Config) (program : List Nat)
    (limit : Nat) : Except ChipError (RunSummary × Chip) := do
  let c ← new instructions config .halt
  let c ← c.loadProgram 0 program
  let c ← c.boot
  return c.run limit

end Chip

end Microcontroller
