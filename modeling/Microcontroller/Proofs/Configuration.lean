import Microcontroller.Config
import Microcontroller.Proofs.Word.Pattern
/-!
# What a valid configuration guarantees

`Config.validate` stops at the first thing that is wrong. Where it finds nothing, every condition
holds, and they are all there is to a valid configuration.
-/

namespace Microcontroller

/-- The conditions on a configuration, in the order in which they are checked. -/
structure Config.Valid (config : Config) : Prop where
  width : ∃ w, config.width? = some w
  registers_pos : 0 < config.registers
  registers_le : config.registers ≤ config.addressSpace
  ram_pos : 0 < config.ram
  speed_pos : 0 < config.speed
  digital_le : config.digital ≤ 64
  analog_le : config.analog ≤ 8
  mapped_le : config.mapped ≤ config.addressSpace - 0x20

namespace Config

variable {config : Config} {w : Width}

theorem validate_ok_iff : config.validate = .ok () ↔ config.Valid := by
  constructor
  · intro h
    rw [validate] at h
    split at h
    · cases h
    next hwidth =>
    split at h
    · cases h
    next hregisters =>
    split at h
    · cases h
    next hspace =>
    split at h
    · cases h
    next hram =>
    split at h
    · cases h
    next hspeed =>
    split at h
    · cases h
    next hdigital =>
    split at h
    · cases h
    next hanalog =>
    split at h
    · cases h
    next hmapped =>
    have hsome : config.width?.isSome := by
      rw [Option.isNone_iff_eq_none] at hwidth
      exact Option.isSome_iff_ne_none.2 hwidth
    exact {
      width := Option.isSome_iff_exists.1 hsome
      registers_pos := Nat.pos_of_ne_zero hregisters
      registers_le := Nat.le_of_not_lt hspace
      ram_pos := Nat.pos_of_ne_zero hram
      speed_pos := Nat.pos_of_ne_zero hspeed
      digital_le := Nat.le_of_not_lt hdigital
      analog_le := Nat.le_of_not_lt hanalog
      mapped_le := Nat.le_of_not_lt hmapped }
  · intro h
    have hsome : ¬ config.width?.isNone := by
      obtain ⟨w, hw⟩ := h.width
      rw [hw]
      exact Bool.false_ne_true
    have hdigital : ¬ AddressMap.digitalPins < config.digital := Nat.not_lt.2 h.digital_le
    have hanalog : ¬ AddressMap.analogChannels < config.analog := Nat.not_lt.2 h.analog_le
    have hmapped : ¬ config.addressSpace - AddressMap.mappedBase < config.mapped :=
      Nat.not_lt.2 h.mapped_le
    rw [validate, if_neg hsome, if_neg (Nat.ne_of_gt h.registers_pos),
      if_neg (Nat.not_lt.2 h.registers_le), if_neg (Nat.ne_of_gt h.ram_pos),
      if_neg (Nat.ne_of_gt h.speed_pos), if_neg hdigital, if_neg hanalog, if_neg hmapped]

theorem bits_of_width? (h : config.width? = some w) : w.bits = config.bits :=
  Width.ofBits?_eq_some h

theorem addressSpace_of_width? (h : config.width? = some w) :
    config.addressSpace = 2 ^ config.bits := by
  have hbits := bits_of_width? h
  have hlt : config.bits < 64 := by
    rw [← hbits]
    cases w <;> decide
  rw [addressSpace, if_pos hlt]

end Config

end Microcontroller
