import Microcontroller.Proofs.Chip.Fit
import Microcontroller.Proofs.Unguarded.Plan
/-!
# Storage without guards

What a plan writes is put where the plan says, without asking again whether there is such a place, and
flags are put one after the other behind a check of the status register. On storage that is laid out as
its configuration asks, every write of a plan that fits has its place.
-/

namespace Microcontroller

open Unguarded

/-! ### Memory and I/O banks -/

namespace Memory

def loadRam! (m : Memory) (offset : Nat) (cells : List Nat) : Refusable Error Memory := do
  return { m with ram := ← m.ram.load! offset cells }

def loadProgram! (m : Memory) (offset : Nat) (cells : List Nat) : Refusable Error Memory :=
  match m.rom with
  | some rom => do return { m with rom := some (← rom.load! offset cells) }
  | none => m.loadRam! offset cells

theorem loadRam!_eq (m : Memory) (offset : Nat) (cells : List Nat) :
    m.loadRam! offset cells = checked (m.loadRam offset cells) :=
  checked_bind (m.ram.load!_eq offset cells) fun _ _ => rfl

theorem loadProgram!_eq (m : Memory) (offset : Nat) (cells : List Nat) :
    m.loadProgram! offset cells = checked (m.loadProgram offset cells) := by
  rw [loadProgram!, loadProgram]
  cases m.rom with
  | some rom => exact checked_bind (rom.load!_eq offset cells) fun _ _ => rfl
  | none => exact m.loadRam!_eq offset cells

end Memory

namespace IoBanks

section

variable (b : IoBanks)

def setPin! (index : Nat) (value : Bool) : Refusable Error IoBanks := do
  return { b with digital := ← b.digital.set! index value }

def setAnalog! (channel value : Nat) : Refusable Error IoBanks := do
  return { b with analog := ← b.analog.setRaw! channel value }

def setMapped! (channel value : Nat) : Refusable Error IoBanks := do
  return { b with mapped := ← b.mapped.setRaw! channel value }

def write! (target : AddressMap.Target) (value : Nat) : Option (Refusable Error IoBanks) :=
  match target with
  | .digital group => some do
      return { b with digital := ← b.digital.setUnit! group (BitVec.ofNat 8 value) }
  | .analog channel => some (b.setAnalog! channel value)
  | .mapped channel => some (b.setMapped! channel value)
  | .stackPointer | .reserved => none

def load! (digital : List Byte) (analog mapped : List Nat) : Refusable Error IoBanks :=
  if analog.length ≠ b.analog.size then
    checked (.error (.outOfBounds analog.length b.analog.size))
  else if mapped.length ≠ b.mapped.size then
    checked (.error (.outOfBounds mapped.length b.mapped.size))
  else do
    let digital ← b.digital.loadBytes! digital
    let analog ← b.analog.load! 0 analog
    let mapped ← b.mapped.load! 0 mapped
    return { digital, analog, mapped }

end

variable {b : IoBanks}

theorem setAnalog!_eq (b : IoBanks) (channel value : Nat) :
    b.setAnalog! channel value = checked (b.setAnalog channel value) :=
  checked_bind (b.analog.sound.setRaw channel value) fun _ _ => rfl

theorem setMapped!_eq (b : IoBanks) (channel value : Nat) :
    b.setMapped! channel value = checked (b.setMapped channel value) :=
  checked_bind (b.mapped.sound.setRaw channel value) fun _ _ => rfl

variable (h : b.digital.Sound)

include h

theorem setPin!_eq (index : Nat) (value : Bool) :
    b.setPin! index value = checked (b.setPin index value) :=
  checked_bind (h.set index value) fun _ _ => rfl

theorem write!_eq (target : AddressMap.Target) (value : Nat) :
    b.write! target value = (b.write target value).map checked := by
  cases target with
  | digital group =>
    exact congrArg some (checked_bind (h.setUnit group (BitVec.ofNat 8 value)) fun _ _ => rfl)
  | analog channel => exact congrArg some (b.setAnalog!_eq channel value)
  | mapped channel => exact congrArg some (b.setMapped!_eq channel value)
  | stackPointer | reserved => rfl

theorem load!_eq (digital : List Byte) (analog mapped : List Nat) :
    b.load! digital analog mapped = checked (b.load digital analog mapped) := by
  rw [load!, load]
  split
  · rfl
  split
  · rfl
  refine checked_bind (h.loadBytes digital) fun _ _ => ?_
  refine checked_bind (b.analog.load!_eq 0 analog) fun _ _ => ?_
  exact checked_bind (b.mapped.load!_eq 0 mapped) fun _ _ => rfl

end IoBanks

/-! ### Writes -/

namespace Storage

section

variable (s : Storage)

def apply! : Write → Unguarded Storage
  | .register index value => do return { s with registers := ← s.registers.put! index value }
  | .ram address value => do return { s with memory.ram := ← s.memory.ram.put! address value }
  | .stackPointer value => .ok { s with sp := value }
  | .status index value => do return { s with status := ← s.status.put! index value }
  | .pin index value => do return { s with io.digital := ← s.io.digital.put! index value }
  | .pinGroup index value => do return { s with io.digital := ← s.io.digital.putUnit! index value }
  | .analog channel value => do return { s with io.analog := ← s.io.analog.put! channel value }
  | .mapped channel value => do return { s with io.mapped := ← s.io.mapped.put! channel value }

end

/-- Set flags one after the other, up to the first that has no place. -/
def setFlags! (layout : FlagLayout) : List (Flag × Bool) → Storage →
    Unguarded (Except Fault Unit × Storage)
  | [], s => .ok (.ok (), s)
  | (f, value) :: rest, s => do
    let index ← layout.index! f
    match ← settled (s.status.set! index value) with
    | .ok status => setFlags! layout rest { s with status }
    | .error _ => return (.error (.bounds s.ip .status index s.status.len), s)

def commit! (layout : FlagLayout) (plan : Plan) (s : Storage) :
    Unguarded (Except Fault Flow × Storage) := do
  let s ← plan.writes.foldlM apply! s
  let (result, s) ← setFlags! layout plan.flags s
  return (result.map fun _ => plan.flow, s)

def execute! (layout : FlagLayout) (d : Decoded) (s : Storage) :
    Unguarded (Except Fault Flow × Storage) := do
  match ← settled (Plan.of! d s layout) with
  | .ok plan => s.commit! layout plan
  | .error fault => return (.error fault, s)

variable {config : Config} {w : Width} {bits : Nat} {s : Storage}

theorem Conforms.apply!_eq (h : s.Conforms config w bits) {write : Write}
    (hwrite : write.Fits config w bits) : s.apply! write = .ok (s.apply write) := by
  cases write with
  | register index value =>
    rw [apply!, bind_eq (h.registers.put!_eq hwrite value)]
    rfl
  | ram address value =>
    rw [apply!, bind_eq (h.memory.ram.put!_eq hwrite value)]
    rfl
  | stackPointer value => rfl
  | status index value =>
    rw [apply!, bind_eq (BitField.put!_eq (h.status.unit_lt hwrite) value)]
    rfl
  | pin index value =>
    rw [apply!, bind_eq (BitField.put!_eq (h.io.digital.unit_lt hwrite) value)]
    rfl
  | pinGroup index value =>
    have hplace : index < s.io.digital.units.size := h.io.digital.units.symm ▸ hwrite
    rw [apply!, bind_eq (h.io.digital.putUnit!_eq hplace value)]
    rfl
  | analog channel value =>
    rw [apply!, bind_eq (h.io.analog.put!_eq hwrite value)]
    rfl
  | mapped channel value =>
    rw [apply!, bind_eq (h.io.mapped.put!_eq hwrite value)]
    rfl

theorem Conforms.foldlM_apply (h : s.Conforms config w bits) {writes : List Write}
    (hwrites : ∀ write ∈ writes, write.Fits config w bits) :
    writes.foldlM apply! s = .ok (writes.foldl Storage.apply s) :=
  foldlM_eq (P := (·.Conforms config w bits)) (fun _ hs write hmem => hs.apply!_eq (hwrites write hmem))
    (fun _ hs write hmem => hs.apply (hwrites write hmem)) h

/-! ### Flags -/

theorem Conforms.setFlags!_eq (h : s.Conforms config w bits) (layout : FlagLayout)
    (flags : List (Flag × Bool)) : setFlags! layout flags s = .ok (setFlags layout flags s) := by
  induction flags generalizing s with
  | nil => rfl
  | cons f rest ih =>
    obtain ⟨f, value⟩ := f
    rw [setFlags!, bind_eq (layout.index!_eq f), bind_eq (settled_eq (h.status.set!_eq _ value)),
      setFlags, BitField.set]
    by_cases hroom : layout.index f < s.status.len
    · rw [if_pos hroom]
      simp only [if_pos hroom]
      exact ih { h with status := h.status.put (h.status.length ▸ hroom) value }
    · rw [if_neg hroom]
      simp only [if_neg hroom]
      rfl

/-! ### Carrying out a plan -/

theorem Conforms.commit!_eq (h : s.Conforms config w bits) (layout : FlagLayout) {plan : Plan}
    (hplan : plan.Fits config w bits) : s.commit! layout plan = .ok (s.commit layout plan) := by
  rw [commit!, bind_eq (h.foldlM_apply hplan.writes),
    bind_eq ((h.foldl_apply hplan.writes).setFlags!_eq layout plan.flags)]
  rfl

theorem Conforms.ready (h : s.Conforms config w bits) {d : Decoded} (hd : d.Fits w)
    (hwhole : d.Whole) : Plan.Ready d s where
  whole := hwhole
  word_lt i := hd.width ▸ h.registers.getD_lt i
  status := h.status.length.symm ▸ h.status

theorem Conforms.execute!_eq (h : s.Conforms config w bits) (layout : FlagLayout) {d : Decoded}
    (hd : d.Fits w) (hwhole : d.Whole) : s.execute! layout d = .ok (s.execute layout d) := by
  rw [execute!, bind_eq (settled_eq ((h.ready hd hwhole).of!_eq layout)), execute]
  cases hplan : Plan.of d s layout with
  | ok plan => exact h.commit!_eq layout (Plan.of_fits h hd hplan)
  | error fault => rfl

end Storage

end Microcontroller
