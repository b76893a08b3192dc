import Microcontroller.Chip.Basic
/-!
# Taking and restoring snapshots

A snapshot restores to a chip if its parts have the sizes that its configuration gives them; their
contents are cut down to fit. A chip that was running when the snapshot was taken comes back halted,
so that booting it goes on with the program.
-/

namespace Microcontroller.Chip

def snapshot (c : Chip) : Snapshot where
  config := c.config
  lifecycle := c.lifecycle
  registers := c.storage.registers.raw.toList
  status := c.storage.status.units.toList
  ram := c.storage.memory.ram.raw.toList
  rom := c.storage.memory.rom.map (·.raw.toList)
  digital := c.storage.io.digital.units.toList
  analog := c.storage.io.analog.raw.toList
  mapped := c.storage.io.mapped.raw.toList
  sp := c.storage.sp
  ip := c.storage.ip
  cycles := c.storage.cycles
  fault := c.fault

/-- A result of storage access as one of a part of a snapshot taken at `ip`. -/
def inRegion {α : Type} (ip : Nat) (region : Region) : Except Error α → Except Fault α
  | .ok a => .ok a
  | .error (.outOfBounds index len) => .error (.bounds ip region index len)
  | .error _ => .error (.bounds ip region 0 0)

/-- Load cells that have to fill their place. -/
def loadExactly (ip : Nat) (region : Region) (cells : Cells) (data : List Nat) :
    Except Fault Cells :=
  if data.length = cells.size then inRegion ip region (cells.load 0 data)
  else .error (.bounds ip region data.length cells.size)

/-- Load ROM, which has to be there exactly if the snapshot has one. -/
def loadRom (ip : Nat) : Option Cells → Option (List Nat) → Except Fault (Option Cells)
  | some rom, some data => return some (← loadExactly ip .rom rom data)
  | none, none => return none
  | rom, data => throw (.bounds ip .rom ((data.map List.length).getD 0) ((rom.map Cells.size).getD 0))

/-- Storage with the contents of a snapshot. -/
def loadStorage (w : Width) (storage : Storage) (s : Snapshot) : Except Fault Storage := do
  let registers ← loadExactly s.ip .registers storage.registers s.registers
  let status ← inRegion s.ip .status (storage.status.loadBytes s.status)
  let ram ← loadExactly s.ip .ram storage.memory.ram s.ram
  let rom ← loadRom s.ip storage.memory.rom s.rom
  let io ← inRegion s.ip .io (storage.io.load s.digital s.analog s.mapped)
  return {
    registers, status, io
    memory := ⟨ram, rom⟩
    sp := w.truncate s.sp
    ip := w.truncate s.ip
    cycles := s.cycles }

def ofSnapshot (instructions : InstructionSet) (s : Snapshot) (policy : FaultPolicy) :
    Except ChipError Chip := do
  let c ← new instructions s.config policy
  let storage ← (loadStorage c.width c.storage s).mapError (.snapshot <| .mismatch ·)
  return { c with
    storage
    lifecycle := if s.lifecycle = .booted then .halted else s.lifecycle
    fault := s.fault }

end Microcontroller.Chip
