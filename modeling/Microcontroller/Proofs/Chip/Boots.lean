import Microcontroller.Proofs.Chip.Flow
import Microcontroller.Proofs.Chip.Resume
/-!
# The number of boots

Booting is all that brings a chip to life, and all that counts as a boot. Whatever else happens to a
chip leaves the number of its boots alone, and a chip that stands still stays so. Two boots of one chip
are therefore told apart by their numbers, also if the chip has been reset between them.
-/

namespace Microcontroller

/-- Calls that get at what a chip stores, but not at its life. -/
def HostCall.isAccess : HostCall → Bool
  | boot | halt | reset | cycle | run _ | clearFault => false
  | loadProgram .. | loadRam .. | setRegister .. | setFlag .. | setStackPointer _
  | setInstructionPointer _ | setPin .. | setAnalog .. | setMapped .. | writeIo .. | loadIo ..
  | clearIo => true

namespace Chip

/-- The number of boots stays, and the chip has not come to life. -/
structure Continues (c c' : Chip) : Prop where
  boots : c'.boots = c.boots
  lifecycle : c'.lifecycle = .booted → c.lifecycle = .booted

/-- The chip is booted. -/
structure Boots (c c' : Chip) : Prop where
  before : c.lifecycle ≠ .booted
  after : c'.lifecycle = .booted
  boots : c'.boots = c.boots + 1

variable {c c' c'' : Chip}

theorem Continues.refl (c : Chip) : c.Continues c := ⟨rfl, id⟩

theorem Continues.trans (h : c.Continues c') (h' : c'.Continues c'') : c.Continues c'' :=
  ⟨h'.boots.trans h.boots, fun hlife => h.lifecycle (h'.lifecycle hlife)⟩

/-! ### Cycles -/

theorem lifecycle_of_stop (h : c.cycle = (.ok .stop, c')) : c'.lifecycle = .halted := by
  rcases cycle_own c with ⟨_, _, _, hcycle⟩ | ⟨_, _, _, hcycle⟩
  all_goals cases hcycle.symm.trans h
  rfl

theorem continues_cycle (c : Chip) : c.Continues c.cycle.2 := by
  rcases cycle_own c with ⟨fault, s, size, hcycle⟩ | ⟨flow, s, size, hcycle⟩
  · rw [hcycle]
    exact ⟨rfl, nofun⟩
  · by_cases hflow : flow = .stop
    · rw [hcycle]
      refine ⟨rfl, fun hlife => ?_⟩
      cases (if_pos hflow).symm.trans hlife
    · have hlife := lifecycle_of_cycle hcycle hflow
      rw [hcycle]
      exact ⟨rfl, fun h => hlife ▸ h⟩

theorem continues_run (c : Chip) (limit : Nat) : c.Continues (c.run limit).2 :=
  runFrom_induct (P := c.Continues) (fun c' h => h.trans (continues_cycle c')) 0 limit (.refl c)

/-- A cycle of a booted chip leaves a trace: it is counted, or it halts the chip. -/
theorem cycle_ne (h : c.lifecycle = .booted) : c.cycle.2 ≠ c := by
  have hfault {fault : Fault} {s : Storage} {size : Nat} :
      { c with storage := s }.stopAt fault size ≠ c := by
    intro heq
    cases h.symm.trans (congrArg Chip.lifecycle heq).symm
  intro heq
  rw [cycle] at heq
  cases hfetch : c.fetch c.storage.ip with
  | error stop =>
    rw [hfetch] at heq
    exact hfault heq
  | ok d =>
    have hcycles := Storage.cycles_execute c.instructions.flags d c.storage
    rw [hfetch] at heq
    cases hexecute : c.storage.execute c.instructions.flags d with
    | mk result s =>
    simp only [hexecute] at heq hcycles
    cases result with
    | error fault => exact hfault heq
    | ok flow =>
      have hcount : s.cycles + 1 = c.storage.cycles :=
        congrArg (fun c : Chip => c.storage.cycles) heq
      omega

/-! ### Host calls -/

theorem boot_of_booted (h : c.lifecycle = .booted) : c.boot = .error .alreadyBooted := by
  rw [boot, h]

/-- Only the first boot since construction changes what the chip stores. -/
theorem boot_of_not_booted (h : c.lifecycle ≠ .booted) : c.boot = .ok { c with
    storage := if c.lifecycle = .constructed then
        { c.storage with status := c.storage.status.clear } else c.storage
    lifecycle := .booted
    boots := c.boots + 1 } := by
  rw [boot]
  cases hstage : c.lifecycle with
  | booted => exact absurd hstage h
  | constructed | halted => rfl

/-- A chip can be booted if it is not. -/
theorem exists_boot_iff : (∃ c', c.boot = .ok c') ↔ c.lifecycle ≠ .booted := by
  by_cases h : c.lifecycle = .booted
  · rw [boot_of_booted h]
    refine iff_of_false (fun ⟨_, hboot⟩ => ?_) (not_not.2 h)
    cases hboot
  · exact iff_of_true ⟨_, boot_of_not_booted h⟩ h

theorem boots_of_boot (h : c.boot = .ok c') : c.Boots c' := by
  have hbefore : c.lifecycle ≠ .booted := exists_boot_iff.1 ⟨c', h⟩
  rw [boot_of_not_booted hbefore] at h
  cases h
  exact ⟨hbefore, rfl, rfl⟩

theorem halt_of_booted (h : c.lifecycle = .booted) : c.halt = { c with lifecycle := .halted } := by
  rw [Chip.halt, h]

theorem halt_of_not_booted (h : c.lifecycle ≠ .booted) : c.halt = c := by
  cases hlife : c.lifecycle with
  | booted => exact absurd hlife h
  | constructed | halted => rw [Chip.halt, hlife]

theorem continues_reset (c : Chip) : c.Continues c.reset := ⟨rfl, nofun⟩

theorem continues_halt (c : Chip) : c.Continues c.halt := by
  by_cases h : c.lifecycle = .booted
  · rw [halt_of_booted h]
    exact ⟨rfl, nofun⟩
  · rw [halt_of_not_booted h]
    exact .refl c

theorem halt_lifecycle (c : Chip) : c.halt.lifecycle ≠ .booted := by
  by_cases h : c.lifecycle = .booted
  · rw [halt_of_booted h]
    exact nofun
  · rwa [halt_of_not_booted h]

/-- Only what the chip stores may be different. -/
def Stored (c c' : Chip) : Prop := ∃ s, c' = { c with storage := s }

theorem Stored.continues (h : c.Stored c') : c.Continues c' := by
  obtain ⟨s, rfl⟩ := h
  exact ⟨rfl, id⟩

theorem stored_withMemory {change : Except Error Memory} (h : c.withMemory change = .ok c') :
    c.Stored c' := by
  obtain ⟨_, -, h⟩ := bind_ok_iff.1 h
  cases h
  exact ⟨_, rfl⟩

theorem stored_withIo {change : IoBanks → Except Error IoBanks} (h : c.withIo change = .ok c') :
    c.Stored c' := by
  obtain ⟨_, -, h⟩ := bind_ok_iff.1 h
  cases h
  exact ⟨_, rfl⟩

theorem stored_setRegister {index : Nat} {value : Int} (h : c.setRegister index value = .ok c') :
    c.Stored c' := by
  obtain ⟨_, -, h⟩ := bind_ok_iff.1 h
  cases h
  exact ⟨_, rfl⟩

theorem stored_setFlag (c : Chip) (f : Flag) (value : Bool) : c.Stored (c.setFlag f value) := by
  rw [Chip.setFlag]
  split
  · exact ⟨_, rfl⟩
  · exact ⟨c.storage, rfl⟩

theorem stored_perform (c : Chip) {call : HostCall} (h : call.isAccess = true) :
    c.Stored (c.perform call) := by
  have refused : c.Stored c := ⟨c.storage, rfl⟩
  cases call with
  | boot | halt | reset | cycle | run | clearFault => cases h
  | loadProgram | loadRam => exact getD_toOption refused fun _ => stored_withMemory
  | setRegister => exact getD_toOption refused fun _ => stored_setRegister
  | setFlag f value => exact c.stored_setFlag f value
  | setStackPointer | setInstructionPointer | clearIo => exact ⟨_, rfl⟩
  | setPin | setAnalog | setMapped | writeIo | loadIo =>
    exact getD_toOption refused fun _ => stored_withIo

/-- A call of the host boots the chip or goes on with it. -/
theorem perform_cases (c : Chip) (call : HostCall) :
    c.Continues (c.perform call) ∨ c.Boots (c.perform call) := by
  cases call with
  | boot =>
    rw [perform]
    cases hboot : c.boot with
    | error e => exact .inl (.refl c)
    | ok c' => exact .inr (boots_of_boot hboot)
  | halt => exact .inl c.continues_halt
  | reset => exact .inl c.continues_reset
  | cycle => exact .inl c.continues_cycle
  | run limit => exact .inl (c.continues_run limit)
  | clearFault => exact .inl ⟨rfl, id⟩
  | _ => exact .inl (c.stored_perform rfl).continues

end Chip

end Microcontroller
