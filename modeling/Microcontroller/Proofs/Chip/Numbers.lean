import Microcontroller.Proofs.Chip.FaultNumbers
import Microcontroller.Proofs.Chip.Overflow
import Microcontroller.Proofs.Chip.Restore
/-!
# Chips of machine integers

A host configures its chips with machine integers, and takes snapshots from images, which hold nothing
else. `Chip.Attainable` is what it can then get hold of: a call that overflows a counter leaves it no
chip. Most numbers in a chip are bounded by its layout; what the layout says nothing about is the
configuration, which no call changes, the cycle counter, and the fault, which comes from a snapshot or
from a cycle. So the snapshot of such a chip consists of machine integers, and has an image that it is
read back from.
-/

namespace Microcontroller.Chip

/-- The chips that a host can get hold of if the numbers that it starts from are machine integers. -/
inductive Attainable (set : InstructionSet) : Chip → Prop where
  | new {config : Config} {policy : FaultPolicy} {c : Chip} (hconfig : config.Bounded)
      (h : new set config policy = .ok c) : Attainable set c
  | perform {c c' : Chip} (call : HostCall) (h : Attainable set c) (hcall : c.perform? call = .ok c') :
      Attainable set c'
  | restore {snapshot : Snapshot} {policy : FaultPolicy} {c : Chip} (hsnapshot : snapshot.Bounded)
      (h : ofSnapshot set snapshot policy = .ok c) : Attainable set c

/-- The numbers that a layout does not bound are machine integers. -/
structure Bounded (c : Chip) : Prop where
  config : c.config.Bounded
  cycles : c.storage.cycles < 2 ^ 64
  fault : ∀ fault ∈ c.fault, fault.Bounded

variable {set : InstructionSet} {config : Config} {c c' : Chip}

/-! ### Calls -/

namespace Bounded

theorem cycle (h : c.Bounded) (hc : c.Conforms set config) {r : Except Fault Flow × Chip}
    (hr : c.cycle? = .ok r) : r.2.Bounded := by
  have hconfig : config.Bounded := hc.configuration ▸ h.config
  rw [cycle?_eq h.cycles, counted_ok_iff] at hr
  obtain ⟨rfl, hroom⟩ := hr
  cases hresult : c.cycle.1 with
  | error fault =>
    rw [cycle_of_error hc.hasRoom hresult]
    refine ⟨h.config, h.cycles, fun fault' hfault => ?_⟩
    cases hfault
    exact hc.cycle_fails hconfig fault hresult
  | ok flow =>
    have hcycle : c.cycle = (.ok flow, c.cycle.2) := Prod.ext hresult rfl
    obtain ⟨row, plan, -, -, -, -, hc'⟩ := (cycle_ok_iff hc.hasRoom).1 hcycle
    rw [← hc'] at hroom ⊢
    exact ⟨h.config, hroom, h.fault⟩

theorem run (h : c.Bounded) (hc : c.Conforms set config) {limit : Nat} {r : RunSummary × Chip}
    (hr : c.run? limit = .ok r) : r.2.Bounded := by
  refine (runFrom?_induct (P := fun c => c.Conforms set config ∧ c.Bounded) ?_ ⟨hc, h⟩ hr).2
  rintro c r ⟨hc, h⟩ hr
  have hconforms : r.2.Conforms set config := by
    rw [cycle?_eq h.cycles, counted_ok_iff] at hr
    exact hr.1 ▸ hc.cycle
  exact ⟨hconforms, h.cycle hc hr⟩

theorem boot (h : c.Bounded) {c' : Chip} (hc : c.boot = .ok c') : c'.Bounded := by
  rw [Chip.boot] at hc
  dsimp only at hc
  split at hc <;> cases hc
  all_goals exact ⟨h.config, h.cycles, h.fault⟩

theorem halt (h : c.Bounded) : c.halt.Bounded := by
  rw [Chip.halt]
  split
  · exact ⟨h.config, h.cycles, h.fault⟩
  all_goals exact h

theorem withMemory (h : c.Bounded) {memory : Except Error Memory} {c' : Chip}
    (hc : c.withMemory memory = .ok c') : c'.Bounded := by
  obtain ⟨m, -, hc⟩ := bind_ok_iff.1 hc
  cases hc
  exact ⟨h.config, h.cycles, h.fault⟩

theorem withIo (h : c.Bounded) {change : IoBanks → Except Error IoBanks} {c' : Chip}
    (hc : c.withIo change = .ok c') : c'.Bounded := by
  obtain ⟨b, -, hc⟩ := bind_ok_iff.1 hc
  cases hc
  exact ⟨h.config, h.cycles, h.fault⟩

theorem setRegister (h : c.Bounded) {index : Nat} {value : Int} {c' : Chip}
    (hc : c.setRegister index value = .ok c') : c'.Bounded := by
  obtain ⟨registers, -, hc⟩ := bind_ok_iff.1 hc
  cases hc
  exact ⟨h.config, h.cycles, h.fault⟩

theorem setFlag (h : c.Bounded) (f : Flag) (value : Bool) : (c.setFlag f value).Bounded := by
  rw [Chip.setFlag]
  split
  · exact ⟨h.config, h.cycles, h.fault⟩
  · exact h

theorem perform (h : c.Bounded) (hc : c.Conforms set config) {call : HostCall}
    (hcall : c.perform? call = .ok c') : c'.Bounded := by
  have hsame := perform_of_perform? h.cycles hcall
  subst hsame
  cases call with
  | boot => exact getD_toOption h fun _ => h.boot
  | halt => exact h.halt
  | reset => exact ⟨h.config, Nat.two_pow_pos 64, nofun⟩
  | cycle =>
    obtain ⟨r, hcycle, hr⟩ := bind_ok_iff.1 hcall
    exact pure_ok_iff.1 hr ▸ h.cycle hc hcycle
  | run limit =>
    obtain ⟨r, hrun, hr⟩ := bind_ok_iff.1 hcall
    exact pure_ok_iff.1 hr ▸ h.run hc hrun
  | loadProgram | loadRam => exact getD_toOption h fun _ => h.withMemory
  | setRegister => exact getD_toOption h fun _ => h.setRegister
  | setFlag f value => exact h.setFlag f value
  | setStackPointer | setInstructionPointer | clearIo => exact ⟨h.config, h.cycles, h.fault⟩
  | setPin | setAnalog | setMapped | writeIo | loadIo =>
    exact getD_toOption h fun _ => h.withIo
  | clearFault => exact ⟨h.config, h.cycles, nofun⟩

end Bounded

theorem Attainable.reachable_bounded (h : Attainable set c) : Reachable set c ∧ c.Bounded := by
  induction h with
  | new hconfig h =>
    refine ⟨.new h, ?_⟩
    obtain ⟨-, w, -, rfl⟩ := new_ok_iff.1 h
    exact ⟨hconfig, Nat.two_pow_pos 64, nofun⟩
  | perform call _ hcall ih =>
    obtain ⟨hreachable, hbounded⟩ := ih
    refine ⟨?_, hbounded.perform hreachable.conforms hcall⟩
    exact perform_of_perform? hbounded.cycles hcall ▸ hreachable.perform call
  | restore hsnapshot h =>
    refine ⟨.restore h, ?_⟩
    obtain ⟨-, -, w, -, rfl⟩ := ofSnapshot_ok_iff.1 h
    exact ⟨hsnapshot.config, hsnapshot.cycles, hsnapshot.fault⟩

theorem Attainable.reachable (h : Attainable set c) : Reachable set c := h.reachable_bounded.1

theorem Attainable.bounded (h : Attainable set c) : c.Bounded := h.reachable_bounded.2

/-! ### Snapshots -/

theorem boundedCells {w : Width} {len : Nat} {cells : Cells} (h : cells.Fits w len)
    (hlen : len < 2 ^ 32) : Snapshot.BoundedCells cells.raw.toList := by
  constructor
  · rw [Array.length_toList, h.size]
    exact Nat.lt_trans hlen (by decide)
  · exact fun r hr => Width.lt_of_lt_capacity (h.lt r (Array.mem_toList_iff.1 hr))

theorem Conforms.snapshot_bounded (hc : c.Conforms set config) (h : c.Bounded) :
    c.snapshot.Bounded := by
  have hconfig : config.Bounded := hc.configuration ▸ h.config
  have hs := hc.storage
  exact {
    config := h.config
    registers := boundedCells hs.registers hconfig.registers
    status := Nat.lt_trans (hs.status.units ▸ BitField.unitsFor_lt set.statusBits_lt) (by decide)
    ram := boundedCells hs.memory.ram hconfig.ramSize_lt
    rom := by
      intro cells hcells
      obtain ⟨rom, hrom, rfl⟩ := Option.map_eq_some_iff.1 hcells
      exact boundedCells (hs.memory.rom rom hrom) hconfig.romSize_lt
    digital := Nat.lt_trans (hs.io.digital.units ▸ BitField.unitsFor_lt hconfig.digital) (by decide)
    analog := boundedCells hs.io.analog hconfig.analog
    mapped := boundedCells hs.io.mapped hconfig.mapped
    sp := Width.lt_of_lt_capacity hs.sp
    ip := Width.lt_of_lt_capacity hs.ip
    cycles := h.cycles
    fault := h.fault }

/-- The snapshot of such a chip is read back from its image. -/
theorem Attainable.ofBytes_snapshot (h : Attainable set c) :
    Snapshot.ofBytes c.snapshot.toBytes = .ok c.snapshot :=
  Snapshot.ofBytes_ok_iff.2 ⟨h.reachable.conforms.snapshot_bounded h.bounded, List.prefix_rfl⟩

end Microcontroller.Chip
