import Microcontroller.Proofs.Chip.Reachable
/-!
# Places in storage

A place is the least that an instruction can write: a cell, a status bit, a pin, or the stack pointer.
What an instruction does to storage is said by a list of places with their new values, and by
`Storage.Updated`: these places have these values, all others have the values from before, and ROM is
as it was. One write updates storage at one place, or at the pins that exist of a group of eight.
Writes to places of their own do not disturb each other, so a plan updates storage at the places of
all of its writes.
-/

namespace Microcontroller

inductive Place where
  | register (index : Nat)
  | status (index : Nat)
  | ram (address : Nat)
  | pin (index : Nat)
  | analog (channel : Nat)
  | mapped (channel : Nat)
  | stackPointer
  deriving DecidableEq

namespace Storage

def Has (s : Storage) : Place → Prop
  | .register index => index < s.registers.size
  | .status index => index < s.status.len
  | .ram address => address < s.memory.ram.size
  | .pin index => index < s.io.digital.len
  | .analog channel => channel < s.io.analog.size
  | .mapped channel => channel < s.io.mapped.size
  | .stackPointer => True

/-- What is at a place, a bit as 0 or 1; 0 where the place does not exist. -/
def valueAt (s : Storage) : Place → Nat
  | .register index => s.registers.raw.getD index 0
  | .status index => (s.status.bit index).toNat
  | .ram address => s.memory.ram.raw.getD address 0
  | .pin index => (s.io.digital.bit index).toNat
  | .analog channel => s.io.analog.raw.getD channel 0
  | .mapped channel => s.io.mapped.raw.getD channel 0
  | .stackPointer => s.sp

/-- `s'` is `s` with these new values at these places, but for the instruction pointer and the cycle
counter. -/
structure Updated (s s' : Storage) (changes : List (Place × Nat)) : Prop where
  has : ∀ place, s'.Has place ↔ s.Has place
  changed : ∀ place value, (place, value) ∈ changes → s.Has place ∧ s'.valueAt place = value
  kept : ∀ place, (∀ value, (place, value) ∉ changes) → s'.valueAt place = s.valueAt place
  rom : s'.memory.rom = s.memory.rom

variable {s s' s'' : Storage} {xs ys : List (Place × Nat)}

theorem Updated.refl (s : Storage) : s.Updated s [] where
  has _ := Iff.rfl
  changed _ _ h := (List.not_mem_nil h).elim
  kept _ _ := rfl
  rom := rfl

/-- Updates in sequence that have no place in common are one update. -/
theorem Updated.append (h : s.Updated s' xs) (h' : s'.Updated s'' ys)
    (hapart : ∀ place x, (place, x) ∈ xs → ∀ y, (place, y) ∉ ys) : s.Updated s'' (xs ++ ys) where
  has place := (h'.has place).trans (h.has place)
  changed place value hmem := by
    rcases List.mem_append.1 hmem with hx | hy
    · obtain ⟨hhas, hvalue⟩ := h.changed place value hx
      exact ⟨hhas, (h'.kept place (hapart place value hx)).trans hvalue⟩
    · obtain ⟨hhas, hvalue⟩ := h'.changed place value hy
      exact ⟨(h.has place).1 hhas, hvalue⟩
  kept place hnot := by
    have hx := h.kept place fun value hmem => hnot value (List.mem_append_left _ hmem)
    have hy := h'.kept place fun value hmem => hnot value (List.mem_append_right _ hmem)
    exact hy.trans hx
  rom := h'.rom.trans h.rom

theorem Updated.single {place : Place} {value : Nat} (has : ∀ q, s'.Has q ↔ s.Has q)
    (hplace : s.Has place) (hvalue : s'.valueAt place = value)
    (kept : ∀ q, q ≠ place → s'.valueAt q = s.valueAt q) (rom : s'.memory.rom = s.memory.rom) :
    s.Updated s' [(place, value)] where
  has := has
  changed q x hmem := by
    cases List.mem_singleton.1 hmem
    exact ⟨hplace, hvalue⟩
  kept q hnot := kept q fun hq => hnot value (List.mem_singleton.2 (by rw [hq]))
  rom := rom

end Storage

/-! ### Single writes -/

/-- The pins of a group that exist, each with its bit of a byte; the first pin takes the top bit. -/
def groupChanges (pins group value : Nat) : List (Place × Nat) :=
  (List.range 8).filterMap fun j =>
    if 8 * group + j < pins then some (.pin (8 * group + j), (value.testBit (7 - j)).toNat) else none

theorem mem_groupChanges_iff {pins group value x : Nat} {place : Place} :
    (place, x) ∈ groupChanges pins group value ↔ ∃ i, place = .pin i ∧ i / 8 = group ∧ i < pins ∧
      x = (value.testBit (7 - i % 8)).toNat := by
  rw [groupChanges, List.mem_filterMap]
  constructor
  · intro ⟨j, hj, h⟩
    split at h <;> cases h
    next hlt =>
    have hj : j < 8 := List.mem_range.1 hj
    have hmod : (8 * group + j) % 8 = j := by omega
    exact ⟨8 * group + j, rfl, by omega, hlt, by rw [hmod]⟩
  · intro ⟨i, hplace, hgroup, hlt, hx⟩
    subst hplace hgroup hx
    have hi : 8 * (i / 8) + i % 8 = i := Nat.div_add_mod i 8
    refine ⟨i % 8, List.mem_range.2 (Nat.mod_lt _ (by decide)), ?_⟩
    rw [hi, if_pos hlt]

/-- The places that a write changes, on a chip with words of width `w` and with this many pins. -/
def Write.changes (w : Width) (pins : Nat) : Write → List (Place × Nat)
  | .register index value => [(.register index, w.truncate value)]
  | .ram address value => [(.ram address, w.truncate value)]
  | .stackPointer value => [(.stackPointer, value)]
  | .status index value => [(.status index, value.toNat)]
  | .pin index value => [(.pin index, value.toNat)]
  | .pinGroup index value => groupChanges pins index value.toNat
  | .analog channel value => [(.analog channel, w.truncate value)]
  | .mapped channel value => [(.mapped channel, w.truncate value)]

namespace Storage

variable {config : Config} {w : Width} {bits : Nat} {s : Storage}

theorem has_apply (s : Storage) (write : Write) (place : Place) :
    (s.apply write).Has place ↔ s.Has place := by
  cases write <;> cases place <;>
    simp only [Storage.apply, Has, Cells.put, Cells.size, BitField.put, BitField.putUnit,
      Array.size_modify]

theorem rom_apply (s : Storage) (write : Write) : (s.apply write).memory.rom = s.memory.rom := by
  cases write <;> rfl

theorem Conforms.updated_group (hs : s.Conforms config w bits) {group : Nat} (value : Byte)
    (h : group < BitField.unitsFor config.digital) :
    s.Updated (s.apply (.pinGroup group value)) (groupChanges config.digital group value.toNat) := by
  have hdigital := hs.io.digital
  have hunit : group < s.io.digital.units.size := by rwa [hdigital.units]
  have hbit : ∀ i, ((s.apply (.pinGroup group value)).valueAt (.pin i)) =
      if i / 8 = group ∧ i < config.digital then (value.toNat.testBit (7 - i % 8)).toNat
      else s.valueAt (.pin i) := by
    intro i
    have hi : i % 8 < 8 := Nat.mod_lt _ (by decide)
    simp only [Storage.apply, valueAt, BitField.bit_putUnit, hunit, and_true, hdigital.length]
    by_cases hgroup : i / 8 = group
    · by_cases hlt : i < config.digital
      · rw [if_pos hgroup, if_pos ⟨hgroup, hlt⟩, decide_eq_true hlt, Bool.and_true,
          BitVec.getMsbD_eq_getLsbD, decide_eq_true hi]
        rfl
      · rw [if_pos hgroup, if_neg fun h => hlt h.2, decide_eq_false hlt, Bool.and_false,
          hdigital.padding i (Nat.le_of_not_lt hlt)]
    · rw [if_neg hgroup, if_neg fun h => hgroup h.1]
  refine ⟨has_apply s _, fun place x hmem => ?_, fun place hnot => ?_, rom_apply s _⟩
  · obtain ⟨i, rfl, hgroup, hlt, rfl⟩ := mem_groupChanges_iff.1 hmem
    rw [hbit, if_pos ⟨hgroup, hlt⟩]
    have hhas : i < s.io.digital.len := hdigital.length.symm ▸ hlt
    exact ⟨hhas, rfl⟩
  · cases place with
    | pin i =>
      rw [hbit, if_neg]
      exact fun h => hnot _ (mem_groupChanges_iff.2 ⟨i, rfl, h.1, h.2, rfl⟩)
    | _ => rfl

/-- A write updates storage at the places it changes. -/
theorem Conforms.updated_apply (hs : s.Conforms config w bits) {write : Write}
    (hwrite : write.Fits config w bits) :
    s.Updated (s.apply write) (write.changes w config.digital) := by
  have single {place : Place} {value : Nat} (hplace : s.Has place)
      (hvalue : (s.apply write).valueAt place = value)
      (kept : ∀ q, q ≠ place → (s.apply write).valueAt q = s.valueAt q) :
      s.Updated (s.apply write) [(place, value)] :=
    Updated.single (has_apply s write) hplace hvalue kept (rom_apply s write)
  cases write with
  | register index value =>
    have hlt : index < s.registers.raw.size := hs.registers.size.symm ▸ hwrite
    refine single hlt (hs.registers.width ▸ Cells.getD_put_self hlt value) fun q hq => ?_
    cases q with
    | register i => exact Cells.getD_put_of_ne _ (ne_of_apply_ne Place.register hq) value
    | _ => rfl
  | ram address value =>
    have hlt : address < s.memory.ram.raw.size := hs.memory.ram.size.symm ▸ hwrite
    refine single hlt (hs.memory.ram.width ▸ Cells.getD_put_self hlt value) fun q hq => ?_
    cases q with
    | ram i => exact Cells.getD_put_of_ne _ (ne_of_apply_ne Place.ram hq) value
    | _ => rfl
  | stackPointer value =>
    refine single trivial rfl fun q hq => ?_
    cases q with
    | stackPointer => exact absurd rfl hq
    | _ => rfl
  | status index value =>
    have hlt : index < s.status.len := hs.status.length.symm ▸ hwrite
    refine single hlt ?_ fun q hq => ?_
    · simp only [Storage.apply, valueAt, BitField.bit_put, hs.status.unit_lt hwrite, and_true, if_true]
    · cases q with
      | status i =>
        have hi : i ≠ index := ne_of_apply_ne Place.status hq
        simp only [Storage.apply, valueAt, BitField.bit_put, hi, false_and, if_false]
      | _ => rfl
  | pin index value =>
    have hlt : index < s.io.digital.len := hs.io.digital.length.symm ▸ hwrite
    refine single hlt ?_ fun q hq => ?_
    · simp only [Storage.apply, valueAt, BitField.bit_put, hs.io.digital.unit_lt hwrite, and_true,
        if_true]
    · cases q with
      | pin i =>
        have hi : i ≠ index := ne_of_apply_ne Place.pin hq
        simp only [Storage.apply, valueAt, BitField.bit_put, hi, false_and, if_false]
      | _ => rfl
  | pinGroup group value => exact hs.updated_group value hwrite
  | analog channel value =>
    have hlt : channel < s.io.analog.raw.size := hs.io.analog.size.symm ▸ hwrite
    refine single hlt (hs.io.analog.width ▸ Cells.getD_put_self hlt value) fun q hq => ?_
    cases q with
    | analog i => exact Cells.getD_put_of_ne _ (ne_of_apply_ne Place.analog hq) value
    | _ => rfl
  | mapped channel value =>
    have hlt : channel < s.io.mapped.raw.size := hs.io.mapped.size.symm ▸ hwrite
    refine single hlt (hs.io.mapped.width ▸ Cells.getD_put_self hlt value) fun q hq => ?_
    cases q with
    | mapped i => exact Cells.getD_put_of_ne _ (ne_of_apply_ne Place.mapped hq) value
    | _ => rfl

end Storage

/-! ### Plans -/

/-- Two writes with no place in common. -/
def Write.Apart (w : Width) (pins : Nat) (a b : Write) : Prop :=
  ∀ place x, (place, x) ∈ a.changes w pins → ∀ y, (place, y) ∉ b.changes w pins

namespace Plan

/-- The writes of a plan, and after them its flags as writes to the status register. -/
def allWrites (layout : FlagLayout) (plan : Plan) : List Write :=
  plan.writes ++ plan.flags.map fun f => .status (layout.index f.1) f.2

def changes (layout : FlagLayout) (w : Width) (pins : Nat) (plan : Plan) : List (Place × Nat) :=
  (plan.allWrites layout).flatMap (Write.changes w pins)

theorem Fits.allWrites {layout : FlagLayout} {config : Config} {w : Width} {bits : Nat} {plan : Plan}
    (h : plan.Fits config w bits) (hroom : ∀ f, layout.index f < bits) :
    ∀ write ∈ plan.allWrites layout, write.Fits config w bits := by
  intro write hmem
  rcases List.mem_append.1 hmem with hwrite | hflag
  · exact h.writes write hwrite
  · obtain ⟨f, -, rfl⟩ := List.mem_map.1 hflag
    exact hroom f.1

end Plan

namespace Storage

variable {config : Config} {w : Width} {bits : Nat} {s : Storage}

theorem afterPlan_eq (layout : FlagLayout) (plan : Plan) (s : Storage) :
    s.afterPlan layout plan = (plan.allWrites layout).foldl apply s := by
  rw [afterPlan, Plan.allWrites, List.foldl_append, List.foldl_map]
  rfl

theorem Conforms.updated_foldl {writes : List Write} (hs : s.Conforms config w bits)
    (hwrites : ∀ write ∈ writes, write.Fits config w bits)
    (hapart : writes.Pairwise (Write.Apart w config.digital)) :
    s.Updated (writes.foldl Storage.apply s) (writes.flatMap (Write.changes w config.digital)) := by
  induction writes generalizing s with
  | nil => exact Updated.refl s
  | cons write rest ih =>
    obtain ⟨hwrite, hrest⟩ := List.forall_mem_cons.1 hwrites
    obtain ⟨hfirst, hapart⟩ := List.pairwise_cons.1 hapart
    rw [List.foldl_cons, List.flatMap_cons]
    refine (hs.updated_apply hwrite).append (ih (hs.apply hwrite) hrest hapart) ?_
    intro place x hx y hy
    obtain ⟨other, hother, hy⟩ := List.mem_flatMap.1 hy
    exact hfirst other hother place x hx y hy

end Storage

namespace Chip

variable {set : InstructionSet} {config : Config} {c : Chip}

theorem valueAt_advance (c : Chip) (flow : Flow) (size : Nat) (place : Place) :
    (c.advance flow size).storage.valueAt place = c.storage.valueAt place := by
  cases place <;> rfl

theorem has_advance (c : Chip) (flow : Flow) (size : Nat) (place : Place) :
    (c.advance flow size).storage.Has place ↔ c.storage.Has place := by
  cases place <;> rfl

/-- An executed instruction updates storage at the places that its plan changes. -/
theorem Conforms.updated (h : c.Conforms set config) {plan : Plan}
    (hplan : plan.Fits config c.width set.statusBits)
    (hapart : (plan.allWrites set.flags).Pairwise (Write.Apart c.width config.digital))
    (size : Nat) :
    c.storage.Updated
      ({ c with storage := c.storage.afterPlan set.flags plan }.advance plan.flow size).storage
      (plan.changes set.flags c.width config.digital) := by
  have hwrites := hplan.allWrites set.flags.index_lt_statusBits
  have hupdated := h.storage.updated_foldl hwrites hapart
  rw [← Storage.afterPlan_eq] at hupdated
  exact {
    has := fun place => (has_advance _ _ _ place).trans (hupdated.has place)
    changed := fun place value hmem => by
      rw [valueAt_advance]
      exact hupdated.changed place value hmem
    kept := fun place hnot => (valueAt_advance _ _ _ place).trans (hupdated.kept place hnot)
    rom := hupdated.rom }

theorem CarriesOut.updated {row : Instruction} {plan : Plan} (hx : c.CarriesOut set row plan)
    (hc : c.Conforms set c.config)
    (hapart : (plan.allWrites set.flags).Pairwise (Write.Apart c.width c.config.digital)) :
    c.storage.Updated c.cycle.2.storage (plan.changes set.flags c.width c.config.digital) :=
  hx.result ▸ hc.updated hx.fits hapart row.size

end Chip

end Microcontroller
