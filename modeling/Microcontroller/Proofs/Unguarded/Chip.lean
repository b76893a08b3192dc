import Microcontroller.Proofs.Chip.Fault
import Microcontroller.Proofs.Configuration
import Microcontroller.Proofs.Unguarded.Storage
/-!
# Chips without guards

All that a host can do with a chip, written without guards: building one, from a configuration or from
a snapshot, calling it, and reading it. A reachable chip is laid out by its configuration, and a cycle
decodes the instruction it executes, so nothing a host does takes a misstep, whatever the table says
about the operands of its rows and whatever numbers the calls, the snapshot and the program hold.
-/

namespace Microcontroller

open Unguarded

/-! ### Building a chip -/

def Config.validate! (c : Config) : Refusable ConfigError Unit :=
  if c.width?.isNone then checked (.error .unsupportedBits)
  else if c.registers = 0 then checked (.error .noRegisters)
  else if c.addressSpace < c.registers then checked (.error .tooManyRegisters)
  else if c.ram = 0 then checked (.error .noRam)
  else if c.speed = 0 then checked (.error .zeroSpeed)
  else if AddressMap.digitalPins < c.digital then checked (.error .tooManyDigital)
  else if AddressMap.analogChannels < c.analog then checked (.error .tooManyAnalog)
  else do
    let room ← sub c.addressSpace AddressMap.mappedBase
    if room < c.mapped then checked (.error .tooManyMapped) else return ()

theorem Config.mappedBase_le {c : Config} {w : Width} (h : c.width? = some w) :
    AddressMap.mappedBase ≤ c.addressSpace := by
  rw [addressSpace_of_width? h, ← bits_of_width? h]
  cases w <;> decide

theorem Config.validate!_eq (c : Config) : c.validate! = checked c.validate := by
  rw [validate!, validate]
  cases hwidth : c.width? with
  | none => rfl
  | some w =>
    rw [lift_bind_eq (sub_eq (mappedBase_le hwidth))]
    simp only [Option.isNone_some, Bool.false_eq_true, if_false, apply_ite checked]
    rfl

namespace Chip

def new! (instructions : InstructionSet) (config : Config) (policy : FaultPolicy) :
    Refusable ChipError Chip := do
  match ← settled config.validate! with
  | .error cause => checked (.error (.invalidConfiguration cause))
  | .ok () =>
    match config.width? with
    | none => checked (.error (.invalidConfiguration .unsupportedBits))
    | some width => return blank instructions config width policy

theorem new!_eq (instructions : InstructionSet) (config : Config) (policy : FaultPolicy) :
    new! instructions config policy = checked (new instructions config policy) := by
  rw [new!, lift_bind_eq (settled_eq config.validate!_eq), new]
  cases config.validate with
  | error cause => rfl
  | ok u =>
    change _ = checked (match config.width? with | none => _ | some width => _)
    cases config.width? <;> rfl

/-! ### Restoring a snapshot -/

section

variable {α : Type} (ip : Nat) (region : Region)

def inRegion! (result : Refusable Error α) : Refusable Fault α := do
  checked (inRegion ip region (← settled result))

theorem inRegion!_eq {x : Refusable Error α} {result : Except Error α} (h : x = checked result) :
    inRegion! ip region x = checked (inRegion ip region result) := by
  rw [inRegion!, lift_bind_eq (settled_eq h)]

def loadExactly! (cells : Cells) (data : List Nat) : Refusable Fault Cells :=
  if data.length = cells.size then inRegion! ip region (cells.load! 0 data)
  else checked (.error (.bounds ip region data.length cells.size))

theorem loadExactly!_eq (cells : Cells) (data : List Nat) :
    loadExactly! ip region cells data = checked (loadExactly ip region cells data) := by
  rw [loadExactly!, loadExactly]
  split
  · exact inRegion!_eq ip region (cells.load!_eq 0 data)
  · rfl

end

def loadRom! (ip : Nat) : Option Cells → Option (List Nat) → Refusable Fault (Option Cells)
  | some rom, some data => do return some (← loadExactly! ip .rom rom data)
  | none, none => .ok none
  | rom, data => checked (.error
      (.bounds ip .rom ((data.map List.length).getD 0) ((rom.map Cells.size).getD 0)))

theorem loadRom!_eq (ip : Nat) (rom : Option Cells) (data : Option (List Nat)) :
    loadRom! ip rom data = checked (loadRom ip rom data) := by
  cases rom <;> cases data
  case some.some rom data =>
    exact checked_bind (loadExactly!_eq ip .rom rom data) fun _ _ => rfl
  all_goals rfl

def loadStorage! (w : Width) (storage : Storage) (s : Snapshot) : Refusable Fault Storage := do
  let registers ← loadExactly! s.ip .registers storage.registers s.registers
  let status ← inRegion! s.ip .status (storage.status.loadBytes! s.status)
  let ram ← loadExactly! s.ip .ram storage.memory.ram s.ram
  let rom ← loadRom! s.ip storage.memory.rom s.rom
  let io ← inRegion! s.ip .io (storage.io.load! s.digital s.analog s.mapped)
  return {
    registers, status, io
    memory := ⟨ram, rom⟩
    sp := w.truncate s.sp
    ip := w.truncate s.ip
    cycles := s.cycles }

theorem loadStorage!_eq (w : Width) {storage : Storage} (hstatus : storage.status.Sound)
    (hdigital : storage.io.digital.Sound) (s : Snapshot) :
    loadStorage! w storage s = checked (loadStorage w storage s) := by
  rw [loadStorage!, loadStorage]
  refine checked_bind (loadExactly!_eq ..) fun _ _ => ?_
  refine checked_bind (inRegion!_eq _ _ (hstatus.loadBytes s.status)) fun _ _ => ?_
  refine checked_bind (loadExactly!_eq ..) fun _ _ => ?_
  refine checked_bind (loadRom!_eq ..) fun _ _ => ?_
  exact checked_bind (inRegion!_eq _ _ (IoBanks.load!_eq hdigital _ _ _)) fun _ _ => rfl

def ofSnapshot! (instructions : InstructionSet) (s : Snapshot) (policy : FaultPolicy) :
    Refusable ChipError Chip := do
  let c ← new! instructions s.config policy
  match ← settled (loadStorage! c.width c.storage s) with
  | .error fault => checked (.error (.snapshot (.mismatch fault)))
  | .ok storage =>
    return { c with
      storage
      lifecycle := if s.lifecycle = .booted then .halted else s.lifecycle
      fault := s.fault }

theorem ofSnapshot!_eq (instructions : InstructionSet) (s : Snapshot) (policy : FaultPolicy) :
    ofSnapshot! instructions s policy = checked (ofSnapshot instructions s policy) := by
  rw [ofSnapshot!, ofSnapshot]
  refine checked_bind (new!_eq ..) fun c hc => ?_
  obtain ⟨hvalid, w, hw, rfl⟩ := new_ok_iff.1 hc
  have hstorage := (blank_conforms instructions policy hvalid hw).storage
  rw [lift_bind_eq (settled_eq
    (loadStorage!_eq _ hstorage.status.sound hstorage.io.digital.sound s))]
  cases loadStorage _ _ s <;> rfl

/-! ### Cycles -/

def fetch! (c : Chip) (address : Nat) : Refusable (Fault × Nat) Decoded := do
  let program := c.storage.memory.program
  let ahead := program.raw.extract address program.size
  match ← settled (c.instructions.decode! c.width ahead) with
  | .ok d => return d
  | .error (.unknownOpcode opcode) =>
    checked (.error (.illegalInstruction address opcode.toNat, 1))
  | .error (.invalidCell cell) => checked (.error (.illegalInstruction address cell, 1))
  | .error (.truncated _ needed available) =>
    checked (.error (.bounds address c.storage.memory.programRegion (address + available)
      program.size, needed))

theorem fetch!_eq (c : Chip) (address : Nat) : c.fetch! address = checked (c.fetch address) := by
  rw [fetch!, fetch, Cells.size, lift_bind_eq (settled_eq (InstructionSet.decode!_eq ..))]
  cases c.instructions.decodeAt c.width c.storage.memory.program.raw address with
  | ok d => rfl
  | error e => cases e <;> rfl

def cycle! (c : Chip) : Unguarded (Except Fault Flow × Chip) := do
  match ← settled (c.fetch! c.storage.ip) with
  | .error (fault, size) => return (.error fault, c.stopAt fault size)
  | .ok d =>
    -- The text of the instruction is for the trace.
    let _ ← d.text!
    match ← c.storage.execute! c.instructions.flags d with
    | (.ok flow, s) => return (.ok flow, { c with storage := s }.advance flow d.size)
    | (.error fault, s) => return (.error fault, { c with storage := s }.stopAt fault d.size)

def runFrom! (done : Nat) : Nat → Chip → Unguarded (RunSummary × Chip)
  | 0, c => .ok (⟨done, .limit⟩, c)
  | limit + 1, c => do
    match ← c.cycle! with
    | (.ok .stop, c) => return (⟨done + 1, .program⟩, c)
    | (.ok .next, c) => runFrom! (done + 1) limit c
    | (.ok (.jump _), c) => runFrom! (done + 1) limit c
    | (.error fault, c) => return (⟨done + 1, .fault fault⟩, c)

variable {set : InstructionSet} {config : Config} {c : Chip}

theorem Conforms.cycle!_eq (h : c.Conforms set config) : c.cycle! = .ok c.cycle := by
  rw [cycle!, bind_eq (settled_eq (c.fetch!_eq c.storage.ip)), Chip.cycle]
  cases hfetch : c.fetch c.storage.ip with
  | error stop => rfl
  | ok d =>
    have hexecute : c.storage.execute! c.instructions.flags d =
        .ok (c.storage.execute c.instructions.flags d) := by
      obtain ⟨row, hrow, hsize, rfl⟩ := fetch_ok_iff.1 hfetch
      exact h.storage.execute!_eq c.instructions.flags (h.decodedAs_fits row)
        (c.length_operandsAt hsize)
    dsimp only
    rw [bind_eq d.text!_eq, bind_eq hexecute]
    generalize c.storage.execute c.instructions.flags d = result
    obtain ⟨flow | fault, s⟩ := result <;> rfl

theorem Conforms.runFrom!_eq (h : c.Conforms set config) (done limit : Nat) :
    runFrom! done limit c = .ok (Chip.runFrom done limit c) := by
  induction limit generalizing c done with
  | zero => rfl
  | succ limit ih =>
    have hnext := h.cycle
    rw [runFrom!, bind_eq h.cycle!_eq, Chip.runFrom]
    generalize c.cycle = result at hnext ⊢
    obtain ⟨outcome, next⟩ := result
    cases outcome with
    | error fault => rfl
    | ok flow =>
      cases flow with
      | stop => rfl
      | next | jump target => exact ih hnext (done + 1)

/-! ### Calls -/

/-- The chip as `change` makes it out of a result, or as it was if there is none. -/
def attempt {ε α : Type} (c : Chip) (result : Refusable ε α) (change : α → Chip) : Unguarded Chip := do
  match ← settled result with
  | .ok a => return change a
  | .error _ => return c

theorem attempt_eq {ε α : Type} {x : Refusable ε α} {result : Except ε α} (h : x = checked result)
    (change : α → Chip) : c.attempt x change = .ok ((result.map change).toOption.getD c) := by
  rw [attempt, bind_eq (settled_eq h)]
  cases result <;> rfl

section

variable (c : Chip)

def withMemory! (memory : Refusable Error Memory) : Unguarded Chip :=
  c.attempt memory fun memory => { c with storage.memory := memory }

def withIo! (io : Refusable Error IoBanks) : Unguarded Chip :=
  c.attempt io fun io => { c with storage.io := io }

def setRegister! (index : Nat) (value : Int) : Unguarded Chip :=
  c.attempt (c.storage.registers.set! index value) fun registers =>
    { c with storage.registers := registers }

def setFlag! (f : Flag) (value : Bool) : Unguarded Chip := do
  let index ← c.instructions.flags.index! f
  c.attempt (c.storage.status.set! index value) fun status => { c with storage.status := status }

/-- The calls that are left to `Chip.perform` take no step that nothing checks: they clear, store or
mask whole fields, or count boots. -/
def perform! : HostCall → Unguarded Chip
  | .cycle => do return (← c.cycle!).2
  | .run limit => do return (← runFrom! 0 limit c).2
  | .loadProgram offset cells => c.withMemory! (c.storage.memory.loadProgram! offset cells)
  | .loadRam offset cells => c.withMemory! (c.storage.memory.loadRam! offset cells)
  | .setRegister index value => c.setRegister! index value
  | .setFlag f value => c.setFlag! f value
  | .setPin index value => c.withIo! (c.storage.io.setPin! index value)
  | .setAnalog channel value => c.withIo! (c.storage.io.setAnalog! channel value)
  | .setMapped channel value => c.withIo! (c.storage.io.setMapped! channel value)
  | .writeIo target value => c.withIo! ((c.storage.io.write! target value).getD (.ok c.storage.io))
  | .loadIo digital analog mapped => c.withIo! (c.storage.io.load! digital analog mapped)
  | call@.boot | call@.halt | call@.reset | call@(.setStackPointer _)
  | call@(.setInstructionPointer _) | call@.clearIo | call@.clearFault => .ok (c.perform call)

def disassembleAt! (address : Nat) : Refusable ChipError String := do
  match ← settled (c.fetch! address) with
  | .ok d => d.text!
  | .error (fault, _) => checked (.error (.fault fault))

end

theorem withMemory!_eq {x : Refusable Error Memory} {memory : Except Error Memory}
    (h : x = checked memory) : c.withMemory! x = .ok ((c.withMemory memory).toOption.getD c) := by
  rw [withMemory!, attempt_eq h, withMemory]
  cases memory <;> rfl

theorem withIo!_eq {x : Refusable Error IoBanks} {change : IoBanks → Except Error IoBanks}
    (h : x = checked (change c.storage.io)) :
    c.withIo! x = .ok ((c.withIo change).toOption.getD c) := by
  rw [withIo!, attempt_eq h, withIo]
  cases change c.storage.io <;> rfl

theorem setRegister!_eq (c : Chip) (index : Nat) (value : Int) :
    c.setRegister! index value = .ok ((c.setRegister index value).toOption.getD c) := by
  rw [setRegister!, attempt_eq (c.storage.registers.sound.set index value), setRegister]
  cases c.storage.registers.set index value <;> rfl

theorem Conforms.setFlag!_eq (h : c.Conforms set config) (f : Flag) (value : Bool) :
    c.setFlag! f value = .ok (c.setFlag f value) := by
  rw [setFlag!, bind_eq (c.instructions.flags.index!_eq f),
    attempt_eq (h.storage.status.set!_eq _ value), Chip.setFlag]
  cases c.storage.status.set (c.instructions.flags.index f) value <;> rfl

theorem Conforms.perform!_eq (h : c.Conforms set config) (call : HostCall) :
    c.perform! call = .ok (c.perform call) := by
  have hdigital := h.storage.io.digital.sound
  cases call with
  | boot | halt | reset | setStackPointer _ | setInstructionPointer _ | clearIo | clearFault => rfl
  | cycle => exact bind_eq h.cycle!_eq _
  | run limit => exact bind_eq (h.runFrom!_eq 0 limit) _
  | loadProgram offset cells => exact withMemory!_eq (Memory.loadProgram!_eq ..)
  | loadRam offset cells => exact withMemory!_eq (Memory.loadRam!_eq ..)
  | setRegister index value => exact c.setRegister!_eq index value
  | setFlag f value => exact h.setFlag!_eq f value
  | setPin index value => exact withIo!_eq (IoBanks.setPin!_eq hdigital index value)
  | setAnalog channel value => exact withIo!_eq (IoBanks.setAnalog!_eq _ channel value)
  | setMapped channel value => exact withIo!_eq (IoBanks.setMapped!_eq _ channel value)
  | writeIo target value =>
    refine withIo!_eq ?_
    rw [IoBanks.write!_eq hdigital target value]
    cases c.storage.io.write target value <;> rfl
  | loadIo digital analog mapped => exact withIo!_eq (IoBanks.load!_eq hdigital digital analog mapped)

theorem disassembleAt!_eq (c : Chip) (address : Nat) :
    c.disassembleAt! address = checked (c.disassembleAt address) := by
  rw [disassembleAt!, lift_bind_eq (settled_eq (c.fetch!_eq address)), disassembleAt]
  cases c.fetch address with
  | ok d => exact lift_eq d.text!_eq
  | error stop => rfl

/-! ### Whatever a host does -/

/-- Nothing that a host does with a chip takes a misstep. -/
structure Sound (c : Chip) : Prop where
  calls (calls : List HostCall) : calls.foldlM perform! c = .ok (calls.foldl perform c)
  disassembleAt (address : Nat) : c.disassembleAt! address = checked (c.disassembleAt address)
  flag (f : Flag) : c.storage.flag! c.instructions.flags f = .ok (c.flag f)
  status : c.storage.status.Sound
  digital : c.storage.io.digital.Sound
  rows : ∀ row ∈ [c.storage.registers, c.storage.memory.ram, c.storage.memory.program,
    c.storage.io.analog, c.storage.io.mapped], row.Sound

theorem Conforms.sound (h : c.Conforms set config) : c.Sound where
  calls _ := foldlM_eq (P := (·.Conforms set config)) (fun _ hc call _ => hc.perform!_eq call)
    (fun _ hc call _ => hc.perform call) h
  disassembleAt := c.disassembleAt!_eq
  flag f := Storage.flag!_eq h.storage.status c.instructions.flags f
  status := h.storage.status.sound
  digital := h.storage.io.digital.sound
  rows row _ := row.sound

/-- Whatever the instruction set, and whether a chip is built from a configuration, restored from a
snapshot or got by any calls from there on, nothing takes a misstep. -/
theorem reachable_sound {set : InstructionSet} :
    (∀ config policy, new! set config policy = checked (new set config policy)) ∧
    (∀ snapshot policy, ofSnapshot! set snapshot policy = checked (ofSnapshot set snapshot policy)) ∧
    ∀ c, Reachable set c → c.Sound :=
  ⟨new!_eq set, ofSnapshot!_eq set, fun _ h => h.conforms.sound⟩

/-- A chip that runs into a row without the operand that its operation needs, and into the end of its
memory. -/
theorem reachable_sound_lacking :
    let config : Config := { Config.m1047 with registers := 1, ram := 2, rom := 0, mapped := 0 }
    let c := (blank lacking config .w8 .skip).perform (.loadProgram 0 [1, 0])
    Reachable lacking c ∧ c.cycle.1 = .error (.illegalInstruction 0 1) ∧
      c.cycle.2.cycle.1 = .error (.bounds 2 .ram 2 2) ∧ c.Sound := by
  intro config c
  have hc : Reachable lacking c :=
    .perform _ (.new (show new lacking config .skip = .ok (blank lacking config .w8 .skip) from rfl))
  have hfault : c.cycle.1 = .error (.illegalInstruction 0 1) := by rfl
  have hend : c.cycle.2.cycle.1 = .error (.bounds 2 .ram 2 2) := by decide +kernel
  obtain ⟨-, -, hsound⟩ := @reachable_sound lacking
  exact ⟨hc, hfault, hend, hsound c hc⟩

end Chip

end Microcontroller
