import Microcontroller.Proofs.AddressMap
import Microcontroller.Proofs.Chip.Demand
import Microcontroller.Proofs.Chip.Layout
import Microcontroller.Proofs.Configuration
/-!
# What is read at an I/O address

An address is answered if the chip has what it stands for, and then the answer is a word in storage. A
write to one target is seen at that target only. Two ports never share a pin, so this also holds of
single pins and of their groups, for which it is read off from the bits.
-/

namespace Microcontroller

open AddressMap (Target resolve)

/-- A chip of this configuration has the target. The last port may be a partial one. -/
def Config.HasTarget (config : Config) : Target → Prop
  | .digital group => group < (config.digital + 7) / 8
  | .analog channel => channel < config.analog
  | .stackPointer => True
  | .mapped channel => channel < config.mapped
  | .reserved => False

/-- The write that sends a word to a target. -/
def AddressMap.Target.send (w : Width) (v : Nat) : Target → Option Write
  | .digital group => some (.pinGroup group (BitVec.ofNat 8 v))
  | .analog channel => some (.analog channel v)
  | .stackPointer => some (.stackPointer (w.truncate v))
  | .mapped channel => some (.mapped channel v)
  | .reserved => none

variable {config : Config} {w : Width} {bits : Nat} {s : Storage} {t : Target}

namespace Config

/-- There is room in the map for all that a valid configuration asks for. -/
theorem Valid.hasRoom (hvalid : config.Valid) (ht : config.HasTarget t) : t.HasRoom := by
  have hdigital := hvalid.digital_le
  have hanalog := hvalid.analog_le
  cases t with
  | digital group =>
    have hgroup : group < (config.digital + 7) / 8 := ht
    show group < 8
    omega
  | analog channel => exact Nat.lt_of_lt_of_le ht hanalog
  | _ => trivial

/-- An address with something at it is a word. -/
theorem Valid.address_lt (hvalid : config.Valid) (hw : config.width? = some w)
    (ht : config.HasTarget t) : t.address < 2 ^ config.bits := by
  have hroom := hvalid.hasRoom ht
  have hspace : 2 ^ 8 ≤ 2 ^ config.bits := by
    rw [← bits_of_width? hw]
    exact Nat.pow_le_pow_right Nat.two_pos (by cases w <;> decide)
  have hmapped := hvalid.mapped_le
  rw [addressSpace_of_width? hw] at hmapped
  cases t with
  | digital group =>
    have hgroup : group < 8 := hroom
    show group < _
    omega
  | analog channel =>
    have hchannel : channel < 8 := hroom
    show 8 + channel < _
    omega
  | stackPointer =>
    show 0x1D < _
    omega
  | mapped channel =>
    have hchannel : channel < config.mapped := ht
    show 0x20 + channel < _
    omega
  | reserved => exact ht.elim

end Config

namespace Storage

/-- The pins of a group. -/
def port (s : Storage) (group : Nat) : Byte := s.io.digital.units.getD group 0

/-- The word that is read at a target. -/
def reading (s : Storage) : Target → Nat
  | .digital group => (s.port group).toNat
  | .analog channel => s.io.analog.raw.getD channel 0
  | .stackPointer => s.sp
  | .mapped channel => s.io.mapped.raw.getD channel 0
  | .reserved => 0

theorem answers_iff_hasTarget (hs : s.Conforms config w bits) (a : Nat) :
    s.io.Answers a ↔ config.HasTarget (resolve a) := by
  rw [IoBanks.Answers]
  cases resolve a with
  | digital group =>
    show group < s.io.digital.units.size ↔ _
    rw [hs.io.digital.units]
    rfl
  | analog channel =>
    show channel < s.io.analog.raw.size ↔ _
    rw [hs.io.analog.size]
    rfl
  | mapped channel =>
    show channel < s.io.mapped.raw.size ↔ _
    rw [hs.io.mapped.size]
    rfl
  | _ => rfl

theorem input_eq_reading {a : Nat} (h : s.io.Answers a) :
    Plan.input s a = .ok (s.reading (resolve a)) := by
  rw [IoBanks.Answers] at h
  rw [Plan.input]
  cases ht : resolve a with
  | digital group =>
    rw [ht] at h
    exact bind_ok_iff.2 ⟨group, Plan.within_ok_iff.2 ⟨h, rfl⟩, rfl⟩
  | analog channel =>
    rw [ht] at h
    exact bind_ok_iff.2 ⟨channel, Plan.within_ok_iff.2 ⟨h, rfl⟩, rfl⟩
  | stackPointer => rfl
  | mapped channel =>
    rw [ht] at h
    exact bind_ok_iff.2 ⟨channel, Plan.within_ok_iff.2 ⟨h, rfl⟩, rfl⟩
  | reserved =>
    rw [ht] at h
    exact h.elim

theorem reading_lt (hs : s.Conforms config w bits) (t : Target) : s.reading t < w.capacity := by
  cases t with
  | digital group => exact w.byte_lt_capacity _
  | analog channel => exact hs.io.analog.getD_lt channel
  | stackPointer => exact hs.sp
  | mapped channel => exact hs.io.mapped.getD_lt channel
  | reserved => exact w.capacity_pos

/-! ### Ports and pins -/

theorem getMsbD_port (s : Storage) (group : Nat) {j : Nat} (hj : j < 8) :
    (s.port group).getMsbD j = s.io.digital.bit (8 * group + j) := by
  have hdiv : (8 * group + j) / 8 = group := by omega
  have hmod : (8 * group + j) % 8 = j := by omega
  rw [BitField.bit, hdiv, hmod]
  rfl

/-- A port that has lost no pin and got no new one is as it was. -/
theorem port_eq_of_bits {s' : Storage} {group : Nat}
    (h : ∀ j < 8, s'.io.digital.bit (8 * group + j) = s.io.digital.bit (8 * group + j)) :
    s'.port group = s.port group := by
  refine BitVec.eq_of_getMsbD_eq fun j hj => ?_
  rw [getMsbD_port s' group hj, getMsbD_port s group hj, h j hj]

/-- Putting a pin is seen at its place in its port, and nowhere else. -/
theorem getMsbD_port_pin (hs : s.Conforms config w bits) {pin : Nat} (hpin : pin < config.digital)
    (value : Bool) (group : Nat) {j : Nat} (hj : j < 8) :
    ((s.apply (.pin pin value)).port group).getMsbD j =
      if 8 * group + j = pin then value else (s.port group).getMsbD j := by
  rw [getMsbD_port _ group hj, getMsbD_port _ group hj]
  simp only [apply, BitField.bit_put, hs.io.digital.unit_lt hpin, and_true]

theorem reading_pin_of_ne {pin : Nat} {value : Bool} (h : t ≠ .digital (pin / 8)) :
    (s.apply (.pin pin value)).reading t = s.reading t := by
  cases t with
  | digital group =>
    have hgroup : group ≠ pin / 8 := fun heq => h (heq ▸ rfl)
    refine congrArg BitVec.toNat (port_eq_of_bits fun j hj => ?_)
    simp only [apply, BitField.bit_put]
    rw [if_neg (by omega)]
  | _ => rfl

/-! ### Writing to a target -/

theorem output_ok_iff {d : Decoded} {a v : Nat} {write : Write} :
    Plan.output d s a v = .ok write ↔ s.io.Answers a ∧ (resolve a).send d.width v = some write := by
  rw [Plan.output, IoBanks.Answers]
  cases resolve a <;>
    simp only [AddressMap.Target.send, bind_ok_iff, Plan.within_ok_iff, pure_ok_iff, and_assoc,
      exists_and_left, exists_eq_left', Option.some.injEq, Except.ok.injEq, true_and, reduceCtorEq,
      false_and]

theorem exists_send (ht : config.HasTarget t) (w : Width) (v : Nat) :
    ∃ write, t.send w v = some write := by
  cases t with
  | reserved => exact ht.elim
  | _ => exact ⟨_, rfl⟩

theorem reading_send_of_ne {t' : Target} {v : Nat} {write : Write} (hne : t' ≠ t)
    (h : t.send w v = some write) : (s.apply write).reading t' = s.reading t' := by
  cases t <;> cases h
  case digital group =>
    cases t' with
    | digital group' =>
      have hgroup : group' ≠ group := fun heq => hne (heq ▸ rfl)
      refine congrArg BitVec.toNat (port_eq_of_bits fun j hj => ?_)
      simp only [apply, BitField.bit_putUnit]
      rw [if_neg (by omega)]
    | _ => rfl
  case analog channel =>
    cases t' with
    | analog channel' => exact Cells.getD_put_of_ne _ (ne_of_apply_ne Target.analog hne) v
    | _ => rfl
  case stackPointer =>
    cases t' with
    | stackPointer => exact absurd rfl hne
    | _ => rfl
  case mapped channel =>
    cases t' with
    | mapped channel' => exact Cells.getD_put_of_ne _ (ne_of_apply_ne Target.mapped hne) v
    | _ => rfl

/-- A port takes the low byte of a word, but for the pins that it lacks. -/
theorem getMsbD_port_send (hs : s.Conforms config w bits) {group v : Nat}
    (hgroup : config.HasTarget (.digital group)) {j : Nat} (hj : j < 8) :
    ((s.apply (.pinGroup group (BitVec.ofNat 8 v))).port group).getMsbD j =
      (v.testBit (7 - j) && decide (8 * group + j < config.digital)) := by
  have hunit : group < s.io.digital.units.size := hs.io.digital.units.symm ▸ hgroup
  have hdiv : (8 * group + j) / 8 = group := by omega
  have hmod : (8 * group + j) % 8 = j := by omega
  rw [getMsbD_port _ group hj]
  simp only [apply, BitField.bit_putUnit, hs.io.digital.length]
  have hlow : 8 - 1 - j = 7 - j := by omega
  have hlt : 7 - j < 8 := by omega
  rw [if_pos ⟨hdiv, hunit⟩, hmod, BitVec.getMsbD_eq_getLsbD, decide_eq_true hj, Bool.true_and,
    BitVec.getLsbD_ofNat, hlow, decide_eq_true hlt, Bool.true_and]

/-- All other targets take the word as it is. -/
theorem reading_send (hs : s.Conforms config w bits) (ht : config.HasTarget t)
    (hport : ∀ group, t ≠ .digital group) {v : Nat} (hv : v < w.capacity) {write : Write}
    (h : t.send w v = some write) : (s.apply write).reading t = v := by
  have htruncate := Width.truncate_of_lt hv
  cases t <;> cases h
  case digital group => exact absurd rfl (hport group)
  case analog channel =>
    have hlt : channel < s.io.analog.raw.size := hs.io.analog.size.symm ▸ ht
    exact (Cells.getD_put_self hlt v).trans (hs.io.analog.width ▸ htruncate)
  case stackPointer => exact htruncate
  case mapped channel =>
    have hlt : channel < s.io.mapped.raw.size := hs.io.mapped.size.symm ▸ ht
    exact (Cells.getD_put_self hlt v).trans (hs.io.mapped.width ▸ htruncate)

theorem fits_of_send (ht : config.HasTarget t) {v : Nat} {write : Write}
    (h : t.send w v = some write) : write.Fits config w bits := by
  cases t <;> cases h
  case stackPointer => exact w.truncate_lt v
  all_goals exact ht

end Storage

end Microcontroller
