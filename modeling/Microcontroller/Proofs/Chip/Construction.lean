import Microcontroller.Isa.M1047
import Microcontroller.Proofs.Chip.Reading
import Microcontroller.Proofs.Clock
import Microcontroller.Proofs.Image.Snapshot
import Microcontroller.Proofs.Unguarded.Chip
/-!
# A valid configuration is one of a working chip

Where `Config.validate` finds nothing wrong, the chip can be built for every instruction set. All that
it has can then be addressed by a word: registers, memory and I/O channels have no number that does not
go into a register. Its clock keeps the speed it was given, but nothing keeps the speed below one cycle
in a nanosecond. Above, the clock does not tick in time.
-/

namespace Microcontroller

open AddressMap (Target resolve)
open Unguarded

namespace Config

variable {config : Config} {w : Width}

/-- Memory is not empty where there is any, and not larger than what can be addressed. -/
structure Clamped (config : Config) : Prop where
  ram_pos : 1 ≤ config.ramSize
  ram_le : config.ramSize ≤ 2 ^ config.bits
  rom_pos : 1 ≤ config.romSize ↔ config.hasRom
  rom_le : config.romSize ≤ 2 ^ config.bits

theorem Valid.clamped (h : config.Valid) : config.Clamped := by
  obtain ⟨w, hw⟩ := h.width
  have hspace := addressSpace_of_width? hw
  have hpos : 0 < config.addressSpace := hspace ▸ Nat.two_pow_pos config.bits
  exact {
    ram_pos := Nat.le_min.2 ⟨h.ram_pos, hpos⟩
    ram_le := hspace ▸ Nat.min_le_right ..
    rom_pos := by
      rw [hasRom, decide_eq_true_eq]
      exact Nat.le_min.trans (and_iff_left hpos)
    rom_le := hspace ▸ Nat.min_le_right .. }

end Config

namespace Chip

variable {set : InstructionSet} {config : Config} {c : Chip}

/-- A number is the value of a cell: the first register takes it and gives it back. -/
def HasValue (c : Chip) (n : Nat) : Prop := ∃ c', c.setRegister 0 n = .ok c' ∧ c'.register 0 = .ok n

theorem Conforms.hasValue_of_lt (h : c.Conforms set config) {n : Nat} (hn : n < 2 ^ config.bits) :
    c.HasValue n := by
  have hvalid := Config.validate_ok_iff.1 h.valid
  have hregisters := h.storage.registers
  have hcapacity : c.width.capacity = 2 ^ config.bits :=
    congrArg (2 ^ ·) (Config.bits_of_width? h.width)
  have hfirst : 0 < c.storage.registers.raw.size := hregisters.size.symm ▸ hvalid.registers_pos
  have hwrap : c.storage.registers.width.wrap n = n := by
    rw [hregisters.width, Width.wrap_natCast, Nat.mod_eq_of_lt (hcapacity ▸ hn)]
  let after : Chip := { c with storage.registers :=
    { c.storage.registers with raw := c.storage.registers.raw.modify 0 fun _ => n } }
  refine ⟨after, ?_, ?_⟩
  · rw [Chip.setRegister, Cells.set, Cells.update, Cells.size, if_pos hfirst, hwrap]
    rfl
  · rw [Chip.register, Cells.raw?, Array.getElem?_modify, if_pos rfl, Array.getElem?_eq_getElem hfirst]
    rfl

/-- Every number of something that the chip has is the value of a cell. -/
structure Addressable (c : Chip) : Prop where
  register : ∀ r < c.storage.registers.size, c.HasValue r
  ram : ∀ a < c.storage.memory.ram.size, c.HasValue a
  rom : ∀ rom ∈ c.storage.memory.rom, ∀ a < rom.size, c.HasValue a
  /-- Each pin group and channel has an address. -/
  target : ∀ t, c.config.HasTarget t → resolve t.address = t ∧ c.HasValue t.address
  /-- There is no other address that is answered. -/
  io : ∀ a, c.storage.io.Answers a → c.HasValue a

theorem Conforms.addressable (h : c.Conforms set config) : c.Addressable := by
  have hvalid := Config.validate_ok_iff.1 h.valid
  have hspace := Config.addressSpace_of_width? h.width
  have htarget : ∀ t, config.HasTarget t → resolve t.address = t ∧ c.HasValue t.address := fun t ht =>
    ⟨AddressMap.resolve_address (hvalid.hasRoom ht), h.hasValue_of_lt (hvalid.address_lt h.width ht)⟩
  have hmemory := h.storage.memory
  refine ⟨fun r hr => ?_, fun a ha => ?_, fun rom hrom a ha => ?_, ?_, fun a ha => ?_⟩
  · rw [Cells.size, h.storage.registers.size] at hr
    exact h.hasValue_of_lt (Nat.lt_of_lt_of_le hr (hspace ▸ hvalid.registers_le))
  · rw [Cells.size, hmemory.ram.size] at ha
    exact h.hasValue_of_lt (Nat.lt_of_lt_of_le ha hvalid.clamped.ram_le)
  · rw [Cells.size, (hmemory.rom rom hrom).size] at ha
    exact h.hasValue_of_lt (Nat.lt_of_lt_of_le ha hvalid.clamped.rom_le)
  · rw [h.configuration]
    exact htarget
  · have ht := (Storage.answers_iff_hasTarget h.storage a).1 ha
    have hused : resolve a ≠ .reserved := fun hreserved => by
      rw [hreserved] at ht
      exact ht
    have haddress := (htarget _ ht).2
    rwa [AddressMap.address_resolve hused] at haddress

end Chip

/-- Validation takes no step that could go wrong, and where it finds nothing wrong a chip can be built
for every instruction set. It is laid out by the configuration, all that it has is addressed by the value
of a cell, and its memories are clamped to what can be. A tick of its clock is the length of a cycle
rounded down. It takes time, so that the next deadline of a driver is later than the cycle it has just
run and each cycle comes after a wait, exactly if there is no more than one cycle in a nanosecond. -/
theorem Config.validate_suffices (config : Config) :
    config.validate! = checked config.validate ∧
    (config.validate = .ok () →
      (∀ set policy, ∃ c, Chip.new set config policy = .ok c ∧ c.Conforms set config ∧ c.Addressable) ∧
      config.Clamped ∧
      config.tickNanos * config.speed ≤ 10 ^ 9 ∧
      10 ^ 9 < (config.tickNanos + 1) * config.speed ∧
      (0 < config.tickNanos ↔ config.speed ≤ 10 ^ 9) ∧
      (∀ deadline now, deadline ≤ now →
        (now < config.nextDeadline deadline now ↔ config.speed ≤ 10 ^ 9)) ∧
      (config.speed ≤ 10 ^ 9 → ∀ start cycles, config.Paced (config.firstDeadline start) cycles →
        cycles.Pairwise fun before after => before.done < after.start)) := by
  refine ⟨config.validate!_eq, fun hok => ?_⟩
  have hvalid := validate_ok_iff.1 hok
  have hpositive := tickNanos_pos_iff hvalid.speed_pos
  obtain ⟨hslow, hfast⟩ := tick_bounds hvalid.speed_pos
  refine ⟨fun set policy => ?_, hvalid.clamped, hslow, hfast, hpositive, fun deadline now hdue => ?_,
    fun hspeed start cycles hpaced => hpaced.apart (hpositive.2 hspeed)⟩
  · obtain ⟨w, hw⟩ := hvalid.width
    have hconforms := Chip.blank_conforms set policy hok hw
    exact ⟨_, Chip.new_ok_iff.2 ⟨hok, w, hw, rfl⟩, hconforms, hconforms.addressable⟩
  · exact (lt_nextDeadline_iff hdue).trans hpositive

/-- The chip of 32 bits with as many registers, channels and cycles as it can have: its last register
and its last channel are values of its cells, and a tick is one nanosecond. -/
theorem Config.validate_suffices_largest :
    let config : Config := ⟨32, 2 ^ 32 - 1, 2 ^ 32 - 1, 2 ^ 32 - 1, 64, 8, 2 ^ 32 - 0x20, 10 ^ 9⟩
    config.validate = .ok () ∧
      (∃ c, Chip.new M1047.instructionSet config .halt = .ok c ∧ c.HasValue (2 ^ 32 - 2) ∧
        c.HasValue (2 ^ 32 - 1)) ∧
      0 < config.tickNanos ∧ 7 < config.nextDeadline 5 7 := by
  intro config
  have hok : config.validate = .ok () := by decide
  have hspeed : config.speed ≤ 10 ^ 9 := Nat.le_refl _
  obtain ⟨-, hsuffices⟩ := config.validate_suffices
  obtain ⟨hnew, -, -, -, hpositive, hlater, -⟩ := hsuffices hok
  obtain ⟨c, hc, hconforms, haddressable⟩ := hnew M1047.instructionSet .halt
  have hregister : 2 ^ 32 - 2 < c.storage.registers.size := by
    rw [Cells.size, hconforms.storage.registers.size]
    decide
  have hchannel : c.config.HasTarget (.mapped (2 ^ 32 - 0x20 - 1)) := by
    rw [hconforms.configuration]
    show 2 ^ 32 - 0x20 - 1 < 2 ^ 32 - 0x20
    decide
  exact ⟨hok, ⟨c, hc, haddressable.register _ hregister, (haddressable.target _ hchannel).2⟩,
    hpositive.2 hspeed, (hlater 5 7 (by decide)).2 hspeed⟩

/-- Validation does not keep a clock from standing still: with more than a thousand million cycles per
second a tick takes no time, and the next deadline of a driver can be that of the cycle it has just run. -/
theorem Config.not_validate_suffices :
    (¬ ∀ config : Config, config.Bounded → config.validate = .ok () → 0 < config.tickNanos) ∧
    ¬ ∀ config : Config, config.Bounded → config.validate = .ok () →
      ∀ deadline now, deadline ≤ now → deadline < config.nextDeadline deadline now := by
  let config : Config := { m1047 with speed := 10 ^ 9 + 1 }
  have hbounded : config.Bounded := by constructor <;> decide
  have hok : config.validate = .ok () := by decide
  constructor
  · intro hticks
    exact absurd (hticks config hbounded hok) (by decide)
  · intro hlater
    exact absurd (hlater config hbounded hok 7 7 (Nat.le_refl 7)) (by decide)

end Microcontroller
