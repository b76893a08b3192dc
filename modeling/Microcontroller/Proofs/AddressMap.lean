import Microcontroller.AddressMap
/-!
# The I/O addresses

What each range of I/O addresses stands for. Between the analog channels and the mapped channels there
is one address that is in use, the stack pointer's.
-/

namespace Microcontroller.AddressMap

variable {a : Nat}

theorem resolve_digital (h : a < 8) : resolve a = .digital a := by
  have hport : a < pinGroups := h
  rw [resolve, if_pos hport]

theorem resolve_analog (h : 8 ≤ a) (hend : a < 16) : resolve a = .analog (a - 8) := by
  have hport : ¬ a < pinGroups := Nat.not_lt.2 h
  have hchannel : a < analogBase + analogChannels := hend
  rw [resolve, if_neg hport, if_pos hchannel]
  rfl

theorem resolve_stackPointer : resolve 0x1D = .stackPointer := rfl

theorem resolve_eq_stackPointer_iff : resolve a = .stackPointer ↔ a = 0x1D := by
  refine ⟨fun h => ?_, fun h => h ▸ resolve_stackPointer⟩
  rw [resolve] at h
  split at h
  · cases h
  split at h
  · cases h
  split at h
  next hstack => exact hstack
  split at h <;> cases h

theorem resolve_mapped (h : 0x20 ≤ a) : resolve a = .mapped (a - 0x20) := by
  have hport : ¬ a < pinGroups := by unfold pinGroups; omega
  have hchannel : ¬ a < analogBase + analogChannels := by unfold analogBase analogChannels; omega
  have hstack : a ≠ stackPointer := by unfold stackPointer; omega
  have hmapped : mappedBase ≤ a := h
  rw [resolve, if_neg hport, if_neg hchannel, if_neg hstack, if_pos hmapped]
  rfl

theorem resolve_reserved (h : 16 ≤ a) (hend : a < 0x20) (hne : a ≠ 0x1D) :
    resolve a = .reserved := by
  have hport : ¬ a < pinGroups := by unfold pinGroups; omega
  have hchannel : ¬ a < analogBase + analogChannels := by unfold analogBase analogChannels; omega
  have hstack : a ≠ stackPointer := hne
  have hmapped : ¬ mappedBase ≤ a := Nat.not_le.2 hend
  rw [resolve, if_neg hport, if_neg hchannel, if_neg hstack, if_neg hmapped]

/-! ### Addresses of targets -/

/-- The address of a target in the map. There is room in it for eight groups of pins and for eight
analog channels only; of the addresses in the gaps this is the first. -/
def Target.address : Target → Nat
  | .digital group => group
  | .analog channel => analogBase + channel
  | .stackPointer => AddressMap.stackPointer
  | .mapped channel => mappedBase + channel
  | .reserved => analogBase + analogChannels

/-- The map has room for the target. -/
def Target.HasRoom : Target → Prop
  | .digital group => group < pinGroups
  | .analog channel => channel < analogChannels
  | .stackPointer | .mapped _ | .reserved => True

theorem resolve_address {t : Target} (h : t.HasRoom) : resolve t.address = t := by
  cases t with
  | digital group => exact resolve_digital h
  | analog channel =>
    have hend : 8 + channel < 16 := Nat.add_lt_add_left h 8
    show resolve (8 + channel) = _
    rw [resolve_analog (Nat.le_add_right 8 channel) hend, Nat.add_sub_cancel_left]
  | stackPointer => rfl
  | mapped channel =>
    show resolve (0x20 + channel) = _
    rw [resolve_mapped (Nat.le_add_right 0x20 channel), Nat.add_sub_cancel_left]
  | reserved => rfl

/-- An address that is in use is that of what it stands for. -/
theorem address_resolve (h : resolve a ≠ .reserved) : (resolve a).address = a := by
  by_cases hport : a < 8
  · rw [resolve_digital hport]
    rfl
  by_cases hchannel : a < 16
  · rw [resolve_analog (Nat.le_of_not_lt hport) hchannel]
    exact Nat.add_sub_of_le (Nat.le_of_not_lt hport)
  by_cases hstack : a = 0x1D
  · rw [hstack, resolve_stackPointer]
    rfl
  by_cases hmapped : 0x20 ≤ a
  · rw [resolve_mapped hmapped]
    exact Nat.add_sub_of_le hmapped
  · exact absurd (resolve_reserved (Nat.le_of_not_lt hchannel) (Nat.lt_of_not_le hmapped) hstack) h

/-! ### Places -/

/-- The number of a place among those of its kind. -/
def Target.index : Target → Nat
  | .digital i | .analog i | .mapped i => i
  | .stackPointer | .reserved => 0

theorem index_resolve_le (a : Nat) : (resolve a).index ≤ a := by
  rw [resolve]
  split
  · exact Nat.le_refl a
  split
  · exact Nat.sub_le ..
  split
  · exact Nat.zero_le a
  split
  · exact Nat.sub_le ..
  · exact Nat.zero_le a

end Microcontroller.AddressMap
