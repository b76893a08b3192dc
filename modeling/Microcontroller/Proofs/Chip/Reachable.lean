import Microcontroller.Chip.Host
import Microcontroller.Proofs.Chip.Cycle
import Microcontroller.Proofs.Chip.Load
import Microcontroller.Proofs.Isa.Layout
/-!
# Reachable chips

A host builds a chip, makes calls on it in any order, and may at any time go on with a chip restored
from a snapshot, which need not be one that a chip has ever given. `Chip.Reachable` is what it can
get hold of in this way. Whatever it does, the chip's storage stays as the configuration lays it out.
The invariant goes through one call at a time; the only call that needs more than the shape of rows
and fields is the cycle, and all it needs is that a plan fits.
-/

namespace Microcontroller

namespace Chip

/-- The chips with a given instruction set that a host can get hold of. -/
inductive Reachable (set : InstructionSet) : Chip → Prop where
  | new {config : Config} {policy : FaultPolicy} {c : Chip} (h : new set config policy = .ok c) :
      Reachable set c
  | perform {c : Chip} (call : HostCall) (h : Reachable set c) : Reachable set (c.perform call)
  | restore {snapshot : Snapshot} {policy : FaultPolicy} {c : Chip}
      (h : ofSnapshot set snapshot policy = .ok c) : Reachable set c

/-- A chip with this instruction set and this valid configuration, and storage laid out by them. -/
structure Conforms (set : InstructionSet) (config : Config) (c : Chip) : Prop where
  instructions : c.instructions = set
  configuration : c.config = config
  valid : config.validate = .ok ()
  width : config.width? = some c.width
  storage : c.storage.Conforms config c.width set.statusBits

/-- A new chip before anything has happened to it. -/
def blank (set : InstructionSet) (config : Config) (w : Width) (policy : FaultPolicy) : Chip where
  instructions := set
  config := config
  width := w
  policy := policy
  storage := Storage.zero config w set.statusBits
  lifecycle := .constructed
  boots := 0
  fault := none

theorem new_ok_iff {set : InstructionSet} {config : Config} {policy : FaultPolicy} {c : Chip} :
    new set config policy = .ok c ↔ config.validate = .ok () ∧
      ∃ w, config.width? = some w ∧ blank set config w policy = c := by
  simp only [new, bind_ok_iff, mapError_ok_iff]
  constructor
  · rintro ⟨⟨⟩, hvalid, h⟩
    split at h
    · cases h
    · next w hw => exact ⟨hvalid, w, hw, pure_ok_iff.1 h⟩
  · intro h
    obtain ⟨hvalid, w, hw, rfl⟩ := h
    refine ⟨(), hvalid, ?_⟩
    rw [hw]
    rfl

variable {set : InstructionSet} {config : Config} {c : Chip}

theorem blank_conforms (set : InstructionSet) {w : Width} (policy : FaultPolicy)
    (hvalid : config.validate = .ok ()) (hw : config.width? = some w) :
    (blank set config w policy).Conforms set config :=
  ⟨rfl, rfl, hvalid, hw, Storage.zero_conforms config w set.statusBits⟩

theorem Conforms.hasRoom (h : c.Conforms set config) : c.HasRoom := by
  intro f
  rw [h.storage.status.length, h.instructions]
  exact set.flags.index_lt_statusBits f

theorem Conforms.flag_eq (h : c.Conforms set config) (f : Flag) :
    c.flag f = c.storage.status.bit (set.flags.index f) := by
  have hroom := h.hasRoom f
  simp only [Chip.flag, Storage.flag, hroom, decide_true, Bool.true_and]
  rw [h.instructions]

/-- A change of storage alone keeps the invariant if the new storage is laid out as the old. -/
theorem Conforms.withStorage (h : c.Conforms set config) {s : Storage} {lifecycle : Lifecycle}
    {boots : Nat} {fault : Option Fault} (hs : s.Conforms config c.width set.statusBits) :
    Conforms set config { c with storage := s, lifecycle, boots, fault } :=
  ⟨h.instructions, h.configuration, h.valid, h.width, hs⟩

/-! ### Cycles -/

theorem Conforms.stopAt (h : c.Conforms set config) (fault : Fault) (size : Nat) :
    (c.stopAt fault size).Conforms set config := by
  refine h.withStorage { h.storage with ip := ?_ }
  dsimp only
  split
  · exact h.storage.ip
  · exact c.width.wrap_lt _

theorem Conforms.decodedAs_fits (h : c.Conforms set config) (row : Instruction) :
    (c.decodedAs row).Fits c.width :=
  ⟨rfl, fun _ hcell => h.storage.memory.program_lt (operandsAt_subset hcell)⟩

theorem Conforms.advance (h : c.Conforms set config) {plan : Plan} (size : Nat)
    (hplan : plan.Fits config c.width set.statusBits) :
    ({ c with storage := c.storage.afterPlan c.instructions.flags plan }.advance plan.flow
      size).Conforms set config := by
  have hroom : ∀ f, c.instructions.flags.index f < set.statusBits := by
    rw [h.instructions]
    exact set.flags.index_lt_statusBits
  have hs := h.storage.afterPlan hroom hplan
  refine h.withStorage { hs with ip := ?_ }
  dsimp only
  split
  next target htarget => exact hplan.target target htarget
  next => exact c.width.wrap_lt _
  next => exact c.width.wrap_lt _

/-- One cycle keeps the invariant, whether it faults or not. -/
theorem Conforms.cycle (h : c.Conforms set config) : c.cycle.2.Conforms set config := by
  cases hresult : c.cycle.1 with
  | error fault =>
    rw [cycle_of_error h.hasRoom hresult]
    exact h.stopAt fault _
  | ok flow =>
    have hcycle : c.cycle = (.ok flow, c.cycle.2) := Prod.ext hresult rfl
    obtain ⟨row, plan, -, -, hplan, -, hc'⟩ := (cycle_ok_iff h.hasRoom).1 hcycle
    rw [← hc']
    exact h.advance row.size (Plan.of_fits h.storage (h.decodedAs_fits row) hplan)

/-- The cycle of a chip carries out this plan of the row at the instruction pointer. -/
structure CarriesOut (c : Chip) (set : InstructionSet) (row : Instruction) (plan : Plan) : Prop where
  here : c.rowAt? c.storage.ip = some row
  size : c.storage.ip + row.size ≤ c.program.size
  planned : Plan.ofOperation (c.decodedAs row) c.storage set.flags = .ok plan
  fits : plan.Fits c.config c.width set.statusBits
  result : { c with storage := c.storage.afterPlan set.flags plan }.advance plan.flow row.size =
    c.cycle.2

theorem Conforms.exists_carriesOut (hc : c.Conforms set config) {flow : Flow}
    (h : c.cycle.1 = .ok flow) : ∃ row plan, c.CarriesOut set row plan := by
  obtain rfl := hc.configuration
  obtain ⟨row, plan, hrow, hsize, hplan, -, hresult⟩ := (cycle_ok_iff hc.hasRoom).1 (Prod.ext h rfl)
  have hfits := Plan.of_fits hc.storage (hc.decodedAs_fits row) hplan
  have hflags : c.instructions.flags = set.flags := by rw [hc.instructions]
  rw [hflags] at hplan hresult
  obtain ⟨_, -, hplan⟩ := bind_ok_iff.1 hplan
  exact ⟨row, plan, hrow, hsize, hplan, hfits, hresult⟩

/-- What every cycle keeps is kept by a run. -/
theorem runFrom_induct {P : Chip → Prop} (hcycle : ∀ c, P c → P c.cycle.2) (done limit : Nat)
    {c : Chip} (h : P c) : P (runFrom done limit c).2 := by
  induction limit generalizing c done with
  | zero => exact h
  | succ limit ih =>
    have hnext := hcycle c h
    rw [runFrom]
    split
    next c' heq => rw [heq] at hnext; exact hnext
    next c' heq => rw [heq] at hnext; exact ih (done + 1) hnext
    next c' heq => rw [heq] at hnext; exact ih (done + 1) hnext
    next c' heq => rw [heq] at hnext; exact hnext

theorem Conforms.runFrom (h : c.Conforms set config) (done limit : Nat) :
    (runFrom done limit c).2.Conforms set config :=
  runFrom_induct (fun _ h => h.cycle) done limit h

/-! ### Host access -/

theorem Conforms.boot {c' : Chip} (h : c.Conforms set config) (hc : c.boot = .ok c') :
    c'.Conforms set config := by
  rw [Chip.boot] at hc
  dsimp only at hc
  split at hc <;> cases hc
  · exact h.withStorage { h.storage with status := h.storage.status.clear }
  · exact h.withStorage h.storage

theorem Conforms.halt (h : c.Conforms set config) : c.halt.Conforms set config := by
  rw [Chip.halt]
  split
  · exact h.withStorage h.storage
  all_goals exact h

theorem Conforms.withMemory {c' : Chip} (h : c.Conforms set config) {change : Except Error Memory}
    (hchange : ∀ m, change = .ok m → m.Conforms config c.width)
    (hc : c.withMemory change = .ok c') : c'.Conforms set config := by
  obtain ⟨m, hm, hc⟩ := bind_ok_iff.1 hc
  cases hc
  exact h.withStorage { h.storage with memory := hchange m (mapError_ok_iff.1 hm) }

theorem Conforms.withIo {c' : Chip} (h : c.Conforms set config)
    {change : IoBanks → Except Error IoBanks}
    (hchange : ∀ b, change c.storage.io = .ok b → b.Conforms config c.width)
    (hc : c.withIo change = .ok c') : c'.Conforms set config := by
  obtain ⟨b, hb, hc⟩ := bind_ok_iff.1 hc
  cases hc
  exact h.withStorage { h.storage with io := hchange b hb }

theorem Conforms.setRegister {c' : Chip} (h : c.Conforms set config) {index : Nat} {value : Int}
    (hc : c.setRegister index value = .ok c') : c'.Conforms set config := by
  simp only [Chip.setRegister, bind_ok_iff, mapError_ok_iff, pure_ok_iff] at hc
  obtain ⟨registers, hregisters, rfl⟩ := hc
  exact h.withStorage { h.storage with registers := h.storage.registers.set hregisters }

theorem Conforms.setFlag (h : c.Conforms set config) (f : Flag) (value : Bool) :
    (c.setFlag f value).Conforms set config := by
  rw [Chip.setFlag]
  split
  next status hstatus =>
    exact h.withStorage { h.storage with status := h.storage.status.set hstatus }
  next => exact h

theorem Conforms.perform (h : c.Conforms set config) (call : HostCall) :
    (c.perform call).Conforms set config := by
  have hmemory := h.storage.memory
  have hio := h.storage.io
  cases call with
  | boot => exact getD_toOption h fun _ => h.boot
  | halt => exact h.halt
  | reset => exact h.withStorage h.storage.clear
  | cycle => exact h.cycle
  | run limit => exact h.runFrom 0 limit
  | loadProgram offset cells =>
    exact getD_toOption h fun _ => h.withMemory fun _ => hmemory.loadProgram
  | loadRam offset cells => exact getD_toOption h fun _ => h.withMemory fun _ => hmemory.loadRam
  | setRegister index value => exact getD_toOption h fun _ => h.setRegister
  | setFlag f value => exact h.setFlag f value
  | setStackPointer sp => exact h.withStorage { h.storage with sp := c.width.truncate_lt sp }
  | setInstructionPointer ip => exact h.withStorage { h.storage with ip := c.width.truncate_lt ip }
  | setPin index value => exact getD_toOption h fun _ => h.withIo fun _ => hio.setPin
  | setAnalog channel value => exact getD_toOption h fun _ => h.withIo fun _ => hio.setAnalog
  | setMapped channel value => exact getD_toOption h fun _ => h.withIo fun _ => hio.setMapped
  | writeIo target value =>
    refine getD_toOption h fun _ => h.withIo fun b hb => ?_
    cases hwrite : c.storage.io.write target value with
    -- Nothing is at this target, and the banks are handed back as they were.
    | none =>
      rw [hwrite] at hb
      cases hb
      exact hio
    | some result =>
      rw [hwrite] at hb
      exact hio.write hwrite hb
  | loadIo digital analog mapped => exact getD_toOption h fun _ => h.withIo fun _ => hio.load
  | clearIo => exact h.withStorage { h.storage with io := hio.clear }
  | clearFault => exact h.withStorage h.storage

/-! ### Snapshots -/

/-- A snapshot that is accepted gives a chip like any other, whatever numbers are in it. -/
theorem ofSnapshot_conforms {snapshot : Snapshot} {policy : FaultPolicy}
    (h : ofSnapshot set snapshot policy = .ok c) : c.Conforms set c.config := by
  obtain ⟨c₀, hnew, h⟩ := bind_ok_iff.1 h
  obtain ⟨s, hs, h⟩ := bind_ok_iff.1 h
  obtain ⟨hvalid, w, hw, rfl⟩ := new_ok_iff.1 hnew
  have hblank := blank_conforms set policy hvalid hw
  obtain ⟨hmatches, rfl⟩ := (loadStorage_ok_iff hblank.storage).1 (mapError_ok_iff.1 hs)
  rw [← pure_ok_iff.1 h]
  exact hblank.withStorage (hmatches.storage_conforms w)

/-! ### Every reachable chip -/

theorem Reachable.conforms (h : Reachable set c) : c.Conforms set c.config := by
  induction h with
  | new hnew =>
    obtain ⟨hvalid, w, hw, rfl⟩ := new_ok_iff.1 hnew
    exact blank_conforms set _ hvalid hw
  | perform call _ ih =>
    have hnext := ih.perform call
    exact hnext.configuration.symm ▸ hnext
  | restore hrestore => exact ofSnapshot_conforms hrestore

end Chip

end Microcontroller
