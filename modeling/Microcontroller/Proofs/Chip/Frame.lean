import Microcontroller.Proofs.AddressMap
import Microcontroller.Proofs.Configuration
import Microcontroller.Proofs.Chip.Flow
import Microcontroller.Proofs.Chip.Reach
/-!
# The frame of a cycle

What a successful cycle may change, by the operation of its instruction: `Chip.Framed`. The rows of a
table may lack the operands that their operation needs, or have them twice or in another order; the
frame holds for all of them, because it is read off what an instruction reaches. In particular no
cycle changes ROM, be it successful or not, so a program in ROM is the same after every run.
-/

namespace Microcontroller

/-- The group of pins or the channel that a place belongs to. -/
def Place.target? : Place → Option AddressMap.Target
  | .pin index => some (.digital (index / AddressMap.groupPins))
  | .analog channel => some (.analog channel)
  | .mapped channel => some (.mapped channel)
  | .register _ | .status _ | .ram _ | .stackPointer => none

namespace Decoded

variable {d : Decoded} {s : Storage} {layout : FlagLayout}

theorem operation_of_reaches_ram {a : Nat} (h : d.Reaches layout s (.ram a)) :
    d.instruction.operation ∈ [.store, .push, .call] := by
  rcases h with ⟨hop, -⟩ | ⟨hop, -⟩
  · rw [hop]
    decide
  · exact List.mem_cons_of_mem _ hop

/-- The address of a store is one number, and so is the place below the top of the stack. -/
theorem reaches_ram_unique {a b : Nat} (ha : d.Reaches layout s (.ram a))
    (hb : d.Reaches layout s (.ram b)) : a = b := by
  rcases ha with ⟨hop, ha⟩ | ⟨hop, rfl⟩ <;> rcases hb with ⟨hop', hb⟩ | ⟨hop', rfl⟩
  · exact Except.ok.inj (ha.symm.trans hb)
  · rw [hop] at hop'
    exact absurd hop' (by decide)
  · rw [hop'] at hop
    exact absurd hop (by decide)
  · rfl

theorem Outputs.unique {target target' : AddressMap.Target} (h : d.Outputs target)
    (h' : d.Outputs target') : target = target' := by
  obtain ⟨-, a, ha, rfl⟩ := h
  obtain ⟨-, a', ha', rfl⟩ := h'
  rw [Option.some.inj (ha.symm.trans ha')]

/-- An instruction reaches a group of pins or a channel by sending a word there, or by naming one of
the pins. -/
theorem outputs_or_names_pin {place : Place} {target : AddressMap.Target}
    (htarget : place.target? = some target) (h : d.Reaches layout s place) :
    d.Outputs target ∨ d.instruction.operation ∈ [.setPin, .clearPin] ∧
      ∃ i, d.operand? .bit = some i ∧ target = .digital (i / AddressMap.groupPins) := by
  cases place with
  | pin i =>
    cases htarget
    rcases h with ⟨hop, hbit⟩ | houtputs
    · exact .inr ⟨hop, i, hbit, rfl⟩
    · exact .inl houtputs
  | analog channel | mapped channel =>
    cases htarget
    exact .inl h
  | _ => cases htarget

theorem operation_of_reaches_target {place : Place} {target : AddressMap.Target}
    (htarget : place.target? = some target) (h : d.Reaches layout s place) :
    d.instruction.operation ∈ [.output, .setPin, .clearPin] := by
  rcases outputs_or_names_pin htarget h with houtputs | ⟨hop, -⟩
  · rw [houtputs.1]
    decide
  · exact List.mem_cons_of_mem _ hop

theorem reaches_target_unique {place place' : Place} {target target' : AddressMap.Target}
    (htarget : place.target? = some target) (h : d.Reaches layout s place)
    (htarget' : place'.target? = some target') (h' : d.Reaches layout s place') :
    target = target' := by
  have hne (houtput : d.instruction.operation = .output)
      (hpin : d.instruction.operation ∈ [.setPin, .clearPin]) : False := by
    rw [houtput] at hpin
    exact absurd hpin (by decide)
  rcases outputs_or_names_pin htarget h with houtputs | ⟨hop, i, hi, rfl⟩ <;>
    rcases outputs_or_names_pin htarget' h' with houtputs' | ⟨hop', j, hj, rfl⟩
  · exact houtputs.unique houtputs'
  · exact (hne houtputs.1 hop').elim
  · exact (hne houtputs'.1 hop).elim
  · rw [Option.some.inj (hi.symm.trans hj)]

end Decoded

namespace Chip

/-- The chip after a cycle of an instruction beside the chip before it. -/
structure Framed (c c' : Chip) (d : Decoded) : Prop where
  has : ∀ place, c'.storage.Has place ↔ c.storage.Has place
  rom : c'.storage.memory.rom = c.storage.memory.rom
  register : ∀ i, c'.storage.valueAt (.register i) ≠ c.storage.valueAt (.register i) →
    d.WritesRegister c.storage.registers.size i
  /-- One cell at most. -/
  ram : ∃ a, ∀ b, c'.storage.valueAt (.ram b) ≠ c.storage.valueAt (.ram b) →
    b = a ∧ d.instruction.operation ∈ [.store, .push, .call]
  /-- One group of pins or one channel at most. -/
  io : ∃ target, ∀ place target', place.target? = some target' →
    c'.storage.valueAt place ≠ c.storage.valueAt place →
      target' = target ∧ d.instruction.operation ∈ [.output, .setPin, .clearPin]
  sp : c'.storage.sp ≠ c.storage.sp → d.instruction.operation.usesStack = true ∨
    d.instruction.operation = .output ∧ d.operand? .ioAddress = some 0x1D
  ip : c'.storage.ip ≠ (c.storage.ip + d.size) % 2 ^ c.config.bits →
    d.instruction.operation.isControlFlow = true

variable {set : InstructionSet} {config : Config} {c : Chip} {row : Instruction} {plan : Plan}

theorem CarriesOut.reaches_of_ne (hx : c.CarriesOut set row plan) (hc : c.Conforms set c.config)
    {place : Place} (h : c.cycle.2.storage.valueAt place ≠ c.storage.valueAt place) :
    (c.decodedAs row).Reaches set.flags c.storage place :=
  not_not.1 fun hplace => h (hx.kept hc hplace)

/-- A chip goes on at the next instruction, unless the operation is for control flow. -/
theorem CarriesOut.ip_of_not_controlFlow (hx : c.CarriesOut set row plan)
    (hflow : row.operation.isControlFlow = false) :
    c.cycle.2.storage.ip = (c.storage.ip + row.size) % c.width.capacity := by
  rw [← hx.result, ip_advance]
  have hshape := Plan.shape_of_ofOperation hx.planned
  by_cases hstop : row.operation = .stop
  · rw [hshape.flow_eq_stop_iff.2 hstop]
  · rw [hshape.flow_eq_next hflow hstop]

theorem CarriesOut.framed (hx : c.CarriesOut set row plan) (hc : c.Conforms set c.config) :
    c.Framed c.cycle.2 (c.decodedAs row) where
  has := hx.has
  rom := hx.rom
  register i h := hx.reaches_of_ne hc h
  ram := by
    by_cases h : ∃ a, c.cycle.2.storage.valueAt (.ram a) ≠ c.storage.valueAt (.ram a)
    · obtain ⟨a, ha⟩ := h
      have hreach := hx.reaches_of_ne hc ha
      refine ⟨a, fun b hb => ?_⟩
      exact ⟨Decoded.reaches_ram_unique (hx.reaches_of_ne hc hb) hreach,
        Decoded.operation_of_reaches_ram hreach⟩
    · exact ⟨0, fun b hb => (h ⟨b, hb⟩).elim⟩
  io := by
    by_cases h : ∃ place target, place.target? = some target ∧
        c.cycle.2.storage.valueAt place ≠ c.storage.valueAt place
    · obtain ⟨place, target, htarget, hne⟩ := h
      have hreach := hx.reaches_of_ne hc hne
      refine ⟨target, fun place' target' htarget' hne' => ?_⟩
      have hreach' := hx.reaches_of_ne hc hne'
      exact ⟨Decoded.reaches_target_unique htarget' hreach' htarget hreach,
        Decoded.operation_of_reaches_target htarget hreach⟩
    · exact ⟨.reserved, fun place target htarget hne => (h ⟨place, target, htarget, hne⟩).elim⟩
  sp h := by
    have hne : c.cycle.2.storage.valueAt .stackPointer ≠ c.storage.valueAt .stackPointer := h
    rcases hx.reaches_of_ne hc hne with hstack | ⟨hop, a, ha, htarget⟩
    · exact .inl hstack
    · exact .inr ⟨hop, AddressMap.resolve_eq_stackPointer_iff.1 htarget ▸ ha⟩
  ip h := by
    have hbits : c.width.capacity = 2 ^ c.config.bits := by
      rw [Width.capacity, Config.bits_of_width? hc.width]
    rw [← hbits] at h
    by_contra hflow
    exact h (hx.ip_of_not_controlFlow (Bool.not_eq_true _ ▸ hflow))

theorem Conforms.rom_cycle (hc : c.Conforms set config) :
    c.cycle.2.storage.memory.rom = c.storage.memory.rom := by
  cases hresult : c.cycle.1 with
  | error fault =>
    rw [cycle_of_error hc.hasRoom hresult]
    rfl
  | ok flow =>
    obtain ⟨row, plan, hx⟩ := hc.exists_carriesOut hresult
    exact hx.rom

theorem Conforms.rom_run (hc : c.Conforms set config) (limit : Nat) :
    (c.run limit).2.storage.memory.rom = c.storage.memory.rom := by
  have hrun := runFrom_induct
    (P := fun c' => c'.Conforms set config ∧ c'.storage.memory.rom = c.storage.memory.rom)
    (fun c' ⟨hc', hrom⟩ => ⟨hc'.cycle, hc'.rom_cycle.trans hrom⟩) 0 limit ⟨hc, rfl⟩
  exact hrun.2

/-- A successful cycle stays within the frame of its instruction, for every table; and no run on a chip
with ROM changes the program. -/
theorem cycle_frame (hc : Reachable set c) :
    (∀ flow, c.cycle.1 = .ok flow → ∃ row, c.rowAt? c.storage.ip = some row ∧
      c.Framed c.cycle.2 (c.decodedAs row)) ∧
    (c.storage.memory.rom.isSome → ∀ limit,
      (c.run limit).2.storage.memory.program = c.storage.memory.program) := by
  refine ⟨fun flow h => ?_, fun hrom limit => ?_⟩
  · obtain ⟨row, plan, hx⟩ := hc.conforms.exists_carriesOut h
    exact ⟨row, hx.here, hx.framed hc.conforms⟩
  · obtain ⟨rom, hrom⟩ := Option.isSome_iff_exists.1 hrom
    rw [Memory.program, Memory.program, hc.conforms.rom_run limit, hrom]
    rfl

/-- A table whose only row has its source first and its destination twice. -/
def crossed : InstructionSet where
  name := "crossed"
  flags := FlagLayout.inOrder
  table := ⟨[⟨"ADD", 0x01, .add, [.source, .destination, .destination], [], none, "Add across"⟩],
    by decide, by decide⟩

/-- Such a row writes the register that its first destination names, and not the second. -/
theorem cycle_frame_crossed :
    let config : Config := { Config.m1047 with registers := 3, ram := 2, rom := 4, mapped := 0 }
    let c := ((blank crossed config .w8 .halt).perform (.loadProgram 0 [1, 0, 1, 2])).perform
      (.setRegister 0 5)
    Reachable crossed c ∧ c.cycle.2.storage.valueAt (.register 1) = 5 ∧
      (∃ row, c.rowAt? 0 = some row ∧ c.Framed c.cycle.2 (c.decodedAs row)) ∧
      ∀ limit, (c.run limit).2.storage.memory.program = c.storage.memory.program := by
  intro config c
  have hnew : new crossed config .halt = .ok (blank crossed config .w8 .halt) := rfl
  have hc : Reachable crossed c := .perform _ (.perform _ (.new hnew))
  have hsum : c.cycle.2.storage.valueAt (.register 1) = 5 := by decide +kernel
  have hok : c.cycle.1 = .ok .next := by decide +kernel
  exact ⟨hc, hsum, (cycle_frame hc).1 .next hok, (cycle_frame hc).2 rfl⟩

end Chip

end Microcontroller
