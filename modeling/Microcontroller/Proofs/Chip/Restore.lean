import Microcontroller.Isa.M1047
import Microcontroller.Proofs.Configuration
import Microcontroller.Proofs.Chip.Reachable
/-!
# Restoring a snapshot

A snapshot restores exactly if its parts have the sizes that its configuration gives them, and then
the chip is known outright: it holds the numbers of the snapshot cut down to words, and the pins that
it has. The snapshot of a reachable chip has these sizes and nothing in it is cut down, so such a chip
comes back as it was, but that it is not running and has not been booted.
-/

namespace Microcontroller

/-! ### What is left of a snapshot -/

/-- A snapshot cut down to what a chip can hold: its numbers to words, its pins to those that exist,
and its life to one that nothing drives. -/
def Snapshot.reduced (s : Snapshot) : Snapshot :=
  let words (cells : List Nat) : List Nat := cells.map (· % 2 ^ s.config.bits)
  { s with
    lifecycle := if s.lifecycle = .booted then .halted else s.lifecycle
    registers := words s.registers
    ram := words s.ram
    rom := s.rom.map words
    digital := BitField.clearPadding s.config.digital s.digital
    analog := words s.analog
    mapped := words s.mapped
    sp := s.sp % 2 ^ s.config.bits
    ip := s.ip % 2 ^ s.config.bits }

namespace Chip

variable {set : InstructionSet}

/-! ### Restoring -/

/-- The chip that a snapshot restores to. -/
def restored (set : InstructionSet) (w : Width) (policy : FaultPolicy) (s : Snapshot) : Chip where
  instructions := set
  config := s.config
  width := w
  policy := policy
  storage := s.storage set w
  lifecycle := if s.lifecycle = .booted then .halted else s.lifecycle
  boots := 0
  fault := s.fault

theorem restored_not_booted (set : InstructionSet) (w : Width) (policy : FaultPolicy)
    (s : Snapshot) : (restored set w policy s).lifecycle ≠ .booted := by
  rw [restored]
  dsimp only
  split
  · nofun
  · assumption

/-- A snapshot restores exactly if its configuration is valid and its parts have the sizes that it
asks for. -/
theorem ofSnapshot_ok_iff {s : Snapshot} {policy : FaultPolicy} {c : Chip} :
    ofSnapshot set s policy = .ok c ↔ s.config.validate = .ok () ∧ s.Matches set ∧
      ∃ w, s.config.width? = some w ∧ restored set w policy s = c := by
  simp only [ofSnapshot, bind_ok_iff, mapError_ok_iff, pure_ok_iff, new_ok_iff]
  constructor
  · rintro ⟨_, ⟨hvalid, w, hw, hblank⟩, storage, hstorage, hc⟩
    subst hblank hc
    obtain ⟨hmatches, rfl⟩ := (loadStorage_ok_iff (Storage.zero_conforms _ _ _)).1 hstorage
    exact ⟨hvalid, hmatches, w, hw, rfl⟩
  · rintro ⟨hvalid, hmatches, w, hw, hc⟩
    subst hc
    refine ⟨_, ⟨hvalid, w, hw, rfl⟩, _, ?_, rfl⟩
    exact (loadStorage_ok_iff (Storage.zero_conforms _ _ _)).2 ⟨hmatches, rfl⟩

/-- What a chip is restored to is what the snapshot holds when it is cut down. -/
theorem snapshot_restored {s : Snapshot} {w : Width} {policy : FaultPolicy}
    (hmatches : s.Matches set) (hw : w.bits = s.config.bits) :
    (restored set w policy s).snapshot = s.reduced := by
  have hwords : ∀ cells : List Nat, cells.map w.truncate = cells.map (· % 2 ^ s.config.bits) := by
    intro cells
    rw [← hw]
    rfl
  -- The status register consists of whole bytes, none of which has a place left over.
  have hfull : 8 * s.status.length = set.statusBits := by
    have hbytes : 8 ∣ set.statusBits := set.flags.eight_dvd_statusBits
    rw [hmatches.status, BitField.unitsFor]
    omega
  simp only [snapshot, restored, Snapshot.storage, Snapshot.reduced, Cells.ofList, hwords,
    BitField.ofBytes, BitField.clearPadding_of_full hfull, Option.map_map, Function.comp_def,
    Width.truncate, Width.capacity, hw]

variable {c : Chip} {config : Config}

/-! ### Snapshots of reachable chips -/

theorem Conforms.snapshot_matches (h : c.Conforms set config) : c.snapshot.Matches set := by
  have hs := h.storage
  have hconfig : c.snapshot.config = config := h.configuration
  exact {
    registers := by rw [hconfig]; exact hs.registers.size
    status := hs.status.units
    ram := by rw [hconfig]; exact hs.memory.ram.size
    rom_isSome := by rw [hconfig, ← hs.memory.rom_isSome]; exact Option.isSome_map
    rom := by
      intro cells hcells
      obtain ⟨rom, hrom, rfl⟩ := Option.map_eq_some_iff.1 hcells
      rw [hconfig]
      exact (hs.memory.rom rom hrom).size
    digital := by rw [hconfig]; exact hs.io.digital.units
    analog := by rw [hconfig]; exact hs.io.analog.size
    mapped := by rw [hconfig]; exact hs.io.mapped.size }

theorem Conforms.rom_snapshot (h : c.Conforms set config) :
    c.snapshot.rom.map (Cells.ofList c.width) = c.storage.memory.rom := by
  cases hrom : c.storage.memory.rom with
  | none => rw [snapshot, hrom]; rfl
  | some rom =>
    rw [snapshot, hrom, Option.map_some, Option.map_some, (h.storage.memory.rom rom hrom).ofList_raw]

/-- All that such a chip stores has room where it is loaded. -/
theorem Conforms.storage_snapshot (h : c.Conforms set config) :
    c.snapshot.storage set c.width = c.storage := by
  have hs := h.storage
  have hconfig : c.snapshot.config = config := h.configuration
  rw [Snapshot.storage, h.rom_snapshot, hconfig]
  simp only [snapshot, hs.registers.ofList_raw, hs.status.ofBytes_units, hs.memory.ram.ofList_raw,
    hs.io.digital.ofBytes_units, hs.io.analog.ofList_raw, hs.io.mapped.ofList_raw,
    Width.truncate_of_lt hs.sp, Width.truncate_of_lt hs.ip]

theorem Conforms.restore_snapshot (h : c.Conforms set config) (policy : FaultPolicy) :
    ofSnapshot set c.snapshot policy = .ok { c with
      policy, boots := 0
      lifecycle := if c.lifecycle = .booted then .halted else c.lifecycle } := by
  have hconfig : c.snapshot.config = config := h.configuration
  have hvalid : c.snapshot.config.validate = .ok () := by rw [hconfig]; exact h.valid
  have hwidth : c.snapshot.config.width? = some c.width := by rw [hconfig]; exact h.width
  refine ofSnapshot_ok_iff.2 ⟨hvalid, h.snapshot_matches, c.width, hwidth, ?_⟩
  rw [restored, h.storage_snapshot, h.instructions.symm]
  rfl

/-- A reachable chip comes back from its snapshot, though it no longer runs and counts its boots
anew. From any snapshot that is accepted comes a chip whose own snapshot is the part of it that a
chip can hold, and that comes back unchanged. -/
theorem snapshots_restore (set : InstructionSet) (policy : FaultPolicy) :
    (∀ c, Reachable set c → ofSnapshot set c.snapshot policy = .ok { c with
      policy, boots := 0
      lifecycle := if c.lifecycle = .booted then .halted else c.lifecycle }) ∧
    ∀ s c, ofSnapshot set s policy = .ok c →
      c.snapshot = s.reduced ∧ ofSnapshot set c.snapshot policy = .ok c := by
  refine ⟨fun c hc => hc.conforms.restore_snapshot policy, fun s c h => ?_⟩
  have hagain := (ofSnapshot_conforms h).restore_snapshot policy
  obtain ⟨-, hmatches, w, hw, rfl⟩ := ofSnapshot_ok_iff.1 h
  refine ⟨snapshot_restored hmatches (Config.bits_of_width? hw), hagain.trans ?_⟩
  -- A restored chip does not run, so its life is not cut short a second time.
  rw [if_neg (restored_not_booted set w policy s)]
  rfl

/-- A snapshot of a running chip in which every number is too large for the place it is meant for,
and all left-over pins are set. The chip it restores to, once booted, comes back as the same chip. -/
theorem snapshots_restore_oversized :
    let set := M1047.instructionSet
    let config : Config :=
      { Config.m1047 with registers := 1, ram := 2, rom := 1, digital := 3, analog := 1, mapped := 0 }
    let s : Snapshot := ⟨config, .booted, [0x1FF], [0xFF, 0xFF], [0x100, 0x207], some [0x12E], [0xFF],
      [0x305], [], 0x1FF, 0x101, 5, some (.bounds 0 .stack 0xFF 2)⟩
    let c := restored set .w8 .skip s
    ofSnapshot set s .skip = .ok c ∧
      c.snapshot = ⟨config, .halted, [0xFF], [0xFF, 0xFF], [0, 7], some [0x2E], [0xE0], [5], [], 0xFF,
        1, 5, some (.bounds 0 .stack 0xFF 2)⟩ ∧
      ofSnapshot set c.snapshot .skip = .ok c ∧ (c.perform .boot).lifecycle = .booted ∧
      ofSnapshot set (c.perform .boot).snapshot .skip = .ok c := by
  intro set config s c
  have hmatches : s.Matches set := {
    registers := rfl
    status := by decide
    ram := by decide
    rom_isSome := rfl
    rom := by
      intro cells hcells
      cases hcells
      decide
    digital := by decide
    analog := rfl
    mapped := rfl }
  have hc : ofSnapshot set s .skip = .ok c :=
    ofSnapshot_ok_iff.2 ⟨rfl, hmatches, .w8, rfl, rfl⟩
  have hreduced : s.reduced = ⟨config, .halted, [0xFF], [0xFF, 0xFF], [0, 7], some [0x2E], [0xE0],
    [5], [], 0xFF, 1, 5, some (.bounds 0 .stack 0xFF 2)⟩ := by decide
  obtain ⟨hreachable, haccepted⟩ := snapshots_restore set .skip
  obtain ⟨hsnapshot, hagain⟩ := haccepted s c hc
  exact ⟨hc, hsnapshot.trans hreduced, hagain, rfl, hreachable _ (.perform .boot (.restore hc))⟩

end Chip

end Microcontroller
