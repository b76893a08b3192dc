import Microcontroller.Chip.Restore
import Microcontroller.Proofs.Chip.Layout
/-!
# Loading a snapshot

The parts of a snapshot are loaded exactly if each has the size of the place it is meant for, and then
the storage is known outright: it holds the numbers of the snapshot cut down to words, and the pins
that there are. So it is laid out like any other.
-/

namespace Microcontroller

namespace Snapshot

/-- The parts of a snapshot have the sizes that its configuration and the instruction set give
them. -/
structure Matches (set : InstructionSet) (s : Snapshot) : Prop where
  registers : s.registers.length = s.config.registers
  status : s.status.length = BitField.unitsFor set.statusBits
  ram : s.ram.length = s.config.ramSize
  rom_isSome : s.rom.isSome = s.config.hasRom
  rom : ∀ cells ∈ s.rom, cells.length = s.config.romSize
  digital : s.digital.length = BitField.unitsFor s.config.digital
  analog : s.analog.length = s.config.analog
  mapped : s.mapped.length = s.config.mapped

/-- Storage that holds what the snapshot does, as far as there is room for it in words of width `w`
and in the pins. -/
def storage (set : InstructionSet) (w : Width) (s : Snapshot) : Storage where
  registers := Cells.ofList w s.registers
  status := BitField.ofBytes set.statusBits s.status
  memory := ⟨Cells.ofList w s.ram, s.rom.map (Cells.ofList w)⟩
  io := {
    digital := BitField.ofBytes s.config.digital s.digital
    analog := Cells.ofList w s.analog
    mapped := Cells.ofList w s.mapped }
  sp := w.truncate s.sp
  ip := w.truncate s.ip
  cycles := s.cycles

theorem Matches.storage_conforms {set : InstructionSet} {s : Snapshot} (h : s.Matches set)
    (w : Width) : (s.storage set w).Conforms s.config w set.statusBits where
  registers := Cells.ofList_fits w h.registers
  status := BitField.ofBytes_tidy h.status
  memory := {
    ram := Cells.ofList_fits w h.ram
    rom_isSome := Option.isSome_map.trans h.rom_isSome
    rom := by
      intro cells hcells
      obtain ⟨data, hdata, rfl⟩ := Option.map_eq_some_iff.1 hcells
      exact Cells.ofList_fits w (h.rom data hdata) }
  io := {
    digital := BitField.ofBytes_tidy h.digital
    analog := Cells.ofList_fits w h.analog
    mapped := Cells.ofList_fits w h.mapped }
  sp := w.truncate_lt _
  ip := w.truncate_lt _

end Snapshot

/-- Banks are loaded exactly by as much as they hold. -/
theorem IoBanks.Conforms.load_ok_iff {config : Config} {w : Width} {b b' : IoBanks}
    (h : b.Conforms config w) {digital : List Byte} {analog mapped : List Nat} :
    b.load digital analog mapped = .ok b' ↔
      (digital.length = BitField.unitsFor config.digital ∧ analog.length = config.analog ∧
        mapped.length = config.mapped) ∧
      ⟨BitField.ofBytes config.digital digital, Cells.ofList w analog, Cells.ofList w mapped⟩ =
        b' := by
  have hanalog : b.analog.size = config.analog := h.analog.size
  have hmapped : b.mapped.size = config.mapped := h.mapped.size
  rw [IoBanks.load, hanalog, hmapped]
  split
  next ha => exact iff_of_false nofun fun h => ha h.1.2.1
  next ha =>
  split
  next hm => exact iff_of_false nofun fun h => hm h.1.2.2
  next hm =>
  have ha := Decidable.not_not.1 ha
  have hm := Decidable.not_not.1 hm
  simp only [bind_ok_iff, h.digital.loadBytes_ok_iff, h.analog.load_all ha, h.mapped.load_all hm,
    Except.ok.injEq, pure_ok_iff, exists_eq_left', and_assoc, exists_and_left, ha, hm, true_and]

theorem IoBanks.Conforms.load {config : Config} {w : Width} {b b' : IoBanks}
    (h : b.Conforms config w) {digital : List Byte} {analog mapped : List Nat}
    (hb : b.load digital analog mapped = .ok b') : b'.Conforms config w := by
  obtain ⟨⟨hdigital, hanalog, hmapped⟩, rfl⟩ := h.load_ok_iff.1 hb
  exact ⟨BitField.ofBytes_tidy hdigital, Cells.ofList_fits w hanalog, Cells.ofList_fits w hmapped⟩

namespace Chip

variable {set : InstructionSet}

/-- What was loaded into its place is what the load gave, whatever region it is reported for. -/
theorem inRegion_ok_iff {α : Type} {ip : Nat} {region : Region} {x : Except Error α} {a : α} :
    inRegion ip region x = .ok a ↔ x = .ok a := by
  cases x with
  | ok b => simp only [inRegion, Except.ok.injEq]
  | error e => cases e <;> simp only [inRegion, reduceCtorEq]

theorem loadExactly_ok_iff {w : Width} {len ip : Nat} {region : Region} {cells cells' : Cells}
    {data : List Nat} (h : cells.Fits w len) : loadExactly ip region cells data = .ok cells' ↔
      data.length = len ∧ Cells.ofList w data = cells' := by
  have hsize : cells.size = len := h.size
  rw [loadExactly, hsize]
  split
  next hlen => rw [h.load_all hlen, inRegion, Except.ok.injEq, and_iff_right hlen]
  next hlen => exact iff_of_false nofun fun h => hlen h.1

theorem loadRom_ok_iff {w : Width} {len ip : Nat} {rom rom' : Option Cells}
    {data : Option (List Nat)} (h : ∀ r ∈ rom, r.Fits w len) : loadRom ip rom data = .ok rom' ↔
      (data.isSome = rom.isSome ∧ ∀ cells ∈ data, cells.length = len) ∧
        data.map (Cells.ofList w) = rom' := by
  cases rom with
  | none =>
    cases data with
    | none => exact ⟨fun h => ⟨⟨rfl, nofun⟩, by cases h; rfl⟩, fun h => by rw [← h.2]; rfl⟩
    | some cells => exact iff_of_false nofun fun h => nomatch h.1.1
  | some row =>
    cases data with
    | none => exact iff_of_false nofun fun h => nomatch h.1.1
    | some cells =>
      simp only [loadRom, bind_ok_iff, loadExactly_ok_iff (h row rfl), pure_ok_iff, Option.isSome_some,
        Option.mem_some_iff, forall_eq', true_and, Option.map_some, and_assoc, exists_and_left,
        exists_eq_left']

theorem loadStorage_ok_iff {w : Width} {s : Snapshot} {storage storage' : Storage}
    (h : storage.Conforms s.config w set.statusBits) :
    loadStorage w storage s = .ok storage' ↔ s.Matches set ∧ s.storage set w = storage' := by
  simp only [loadStorage, bind_ok_iff, inRegion_ok_iff, loadExactly_ok_iff h.registers,
    h.status.loadBytes_ok_iff, loadExactly_ok_iff h.memory.ram, loadRom_ok_iff h.memory.rom,
    h.io.load_ok_iff, pure_ok_iff, and_assoc, exists_and_left, exists_eq_left', h.memory.rom_isSome]
  constructor
  · rintro ⟨hregisters, hstatus, hram, hsome, hrom, hdigital, hanalog, hmapped, hstorage⟩
    exact ⟨⟨hregisters, hstatus, hram, hsome, hrom, hdigital, hanalog, hmapped⟩, hstorage⟩
  · rintro ⟨hmatches, hstorage⟩
    exact ⟨hmatches.registers, hmatches.status, hmatches.ram, hmatches.rom_isSome, hmatches.rom,
      hmatches.digital, hmatches.analog, hmatches.mapped, hstorage⟩

end Chip

end Microcontroller
