import Microcontroller.Proofs.InPlace
/-!
# Bulk loads are all or nothing

A host puts a program or data into memory, and restores the I/O banks, in one call each. Such a call is
made as a whole or not at all: a range of cells that the memory does not have is refused before the first
cell is written, and of the three banks none is written before all have been found to fit. Nothing that
is loaded after the first can then be refused.
-/

namespace Microcontroller

/-! ### Memory -/

namespace Memory

def withRam (m : Memory) (ram : Cells) : Memory := { m with ram }

/-- Memory with other cells to run programs from: in ROM, or in RAM where there is no ROM. -/
def withProgram (m : Memory) (cells : Cells) : Memory :=
  match m.rom with
  | some _ => { m with rom := some cells }
  | none => { m with ram := cells }

def loadRamInPlace (offset : Nat) (cells : List Nat) : InPlace Error Memory Unit :=
  .onPart ram withRam (Cells.loadInPlace offset cells)

def loadProgramInPlace (offset : Nat) (cells : List Nat) : InPlace Error Memory Unit :=
  .onPart program withProgram (Cells.loadInPlace offset cells)

/-- Memory with cells loaded into RAM, and ROM as before. -/
def RamLoaded (offset : Nat) (cells : List Nat) (m m' : Memory) : Prop :=
  ∃ ram, m.ram.Loaded offset cells ram ∧ m.withRam ram = m'

/-- Memory with cells loaded where programs run from, and any other memory as before. -/
def ProgramLoaded (offset : Nat) (cells : List Nat) (m m' : Memory) : Prop :=
  ∃ program, m.program.Loaded offset cells program ∧ m.withProgram program = m'

theorem withProgram_program (m : Memory) : m.withProgram m.program = m := by
  obtain ⟨ram, _ | rom⟩ := m <;> rfl

theorem loadRam_eq (m : Memory) (offset : Nat) (cells : List Nat) :
    m.loadRam offset cells = (m.ram.load offset cells).map m.withRam :=
  bind_pure_comp _ _

theorem loadProgram_eq (m : Memory) (offset : Nat) (cells : List Nat) :
    m.loadProgram offset cells = (m.program.load offset cells).map m.withProgram := by
  obtain ⟨ram, _ | rom⟩ := m
  · exact bind_pure_comp _ (ram.load offset cells)
  · exact bind_pure_comp _ (rom.load offset cells)

theorem loadRam_allOrNothing (m : Memory) (hsize : m.ram.size < 2 ^ 63) (offset : Nat)
    (cells : List Nat) :
    AllOrNothing (m.loadRam offset cells) (loadRamInPlace offset cells) m
      (offset + cells.length ≤ m.ram.size) (m.RamLoaded offset cells) (Error.IsPast m.ram.size) := by
  rw [loadRam_eq]
  exact (Cells.load_allOrNothing hsize offset cells).onPart rfl

theorem loadProgram_allOrNothing (m : Memory) (hsize : m.program.size < 2 ^ 63) (offset : Nat)
    (cells : List Nat) :
    AllOrNothing (m.loadProgram offset cells) (loadProgramInPlace offset cells) m
      (offset + cells.length ≤ m.program.size) (m.ProgramLoaded offset cells)
      (Error.IsPast m.program.size) := by
  rw [loadProgram_eq]
  exact (Cells.load_allOrNothing hsize offset cells).onPart m.withProgram_program

end Memory

/-! ### Chips -/

namespace Chip

/-- A chip with other memory. -/
def putMemory (c : Chip) (memory : Memory) : Chip := { c with storage.memory := memory }

/-- A change of the memory of a chip in place. -/
def memoryInPlace (change : InPlace Error Memory Unit) : InPlace ChipError Chip Unit :=
  .onPart (·.storage.memory) putMemory (change.adaptExcept .spec)

theorem withMemory_eq (c : Chip) (result : Except Error Memory) :
    c.withMemory result = (result.mapError .spec).map c.putMemory :=
  bind_pure_comp _ _

theorem withMemory_allOrNothing (c : Chip) {result : Except Error Memory}
    {inPlace : InPlace Error Memory Unit} {fits : Prop} {loaded : Memory → Prop}
    {refusal : Error → Prop}
    (h : AllOrNothing result inPlace c.storage.memory fits loaded refusal) :
    AllOrNothing (c.withMemory result) (memoryInPlace inPlace) c fits
      (fun c' => ∃ memory, loaded memory ∧ c.putMemory memory = c')
      (fun e' => ∃ e, refusal e ∧ ChipError.spec e = e') := by
  rw [withMemory_eq]
  exact AllOrNothing.onPart (s := c) (h.mapError ChipError.spec) rfl

end Chip

/-! ### Banks -/

namespace IoBanks

def putDigital (digital : List Byte) : InPlace Error IoBanks Unit :=
  .onPart (·.digital) (fun b digital => { b with digital }) (BitField.loadBytesInPlace digital)

def putAnalog (analog : List Nat) : InPlace Error IoBanks Unit :=
  .onPart (·.analog) (fun b analog => { b with analog }) (Cells.loadInPlace 0 analog)

def putMapped (mapped : List Nat) : InPlace Error IoBanks Unit :=
  .onPart (·.mapped) (fun b mapped => { b with mapped }) (Cells.loadInPlace 0 mapped)

/-- Replace the banks one after the other, if two of the three have the sizes of what they get; the
first to be replaced sees to this itself. -/
def loadInPlace (digital : List Byte) (analog mapped : List Nat) : InPlace Error IoBanks Unit := do
  let b ← getThe IoBanks
  if analog.length ≠ b.analog.size then throw (.outOfBounds analog.length b.analog.size)
  else if mapped.length ≠ b.mapped.size then throw (.outOfBounds mapped.length b.mapped.size)
  else
    putDigital digital
    putAnalog analog
    putMapped mapped

/-- What the banks refuse first of what does not fit them. -/
def refusal (b : IoBanks) (digital : List Byte) (analog mapped : List Nat) : Error :=
  if analog.length ≠ b.analog.size then .outOfBounds analog.length b.analog.size
  else if mapped.length ≠ b.mapped.size then .outOfBounds mapped.length b.mapped.size
  else .outOfBounds digital.length b.digital.units.size

theorem load_allOrNothing (b : IoBanks) (digital : List Byte) (analog mapped : List Nat) :
    AllOrNothing (b.load digital analog mapped) (loadInPlace digital analog mapped) b
      (digital.length = b.digital.units.size ∧ analog.length = b.analog.size ∧
        mapped.length = b.mapped.size)
      (fun b' => b.digital.Loaded digital b'.digital ∧ b.analog.Loaded 0 analog b'.analog ∧
        b.mapped.Loaded 0 mapped b'.mapped)
      (b.refusal digital analog mapped = ·) where
  loads := by
    rintro ⟨hdigital, hanalog, hmapped⟩
    obtain ⟨d, hd, hdin, hdloaded⟩ := (b.digital.loadBytes_allOrNothing digital).loads hdigital
    obtain ⟨a, ha⟩ := Cells.load_ok_iff.2 (by omega : 0 + analog.length ≤ b.analog.size)
    obtain ⟨m, hm⟩ := Cells.load_ok_iff.2 (by omega : 0 + mapped.length ≤ b.mapped.size)
    have hfirst : putDigital digital b = .ok () { b with digital := d } := InPlace.onPart_ok hdin
    have hsecond : putAnalog analog { b with digital := d } =
        .ok () { b with digital := d, analog := a } :=
      InPlace.onPart_ok (Cells.loadInPlace_of_load ha)
    have hthird : putMapped mapped { b with digital := d, analog := a } = .ok () ⟨d, a, m⟩ :=
      InPlace.onPart_ok (Cells.loadInPlace_of_load hm)
    refine ⟨⟨d, a, m⟩, ?_, ?_, hdloaded, Cells.loaded_of_load ha, Cells.loaded_of_load hm⟩
    · rw [load, if_neg (not_not_intro hanalog), if_neg (not_not_intro hmapped), hd, ha, hm]
      rfl
    · rw [loadInPlace, InPlace.getThe_bind, if_neg (not_not_intro hanalog),
        if_neg (not_not_intro hmapped), InPlace.bind_ok hfirst, InPlace.bind_ok hsecond, hthird]
  refuses hfits := by
    rw [load, loadInPlace, InPlace.getThe_bind, refusal]
    by_cases hanalog : analog.length = b.analog.size
    · simp only [if_neg (not_not_intro hanalog)]
      by_cases hmapped : mapped.length = b.mapped.size
      · have hdigital : digital.length ≠ b.digital.units.size := fun h =>
          hfits ⟨h, hanalog, hmapped⟩
        obtain ⟨e, hd, hdin, he⟩ := (b.digital.loadBytes_allOrNothing digital).refuses hdigital
        simp only [if_neg (not_not_intro hmapped)]
        refine ⟨e, ?_, InPlace.bind_error (InPlace.onPart_error hdin), he⟩
        rw [hd]
        rfl
      · simp only [if_pos hmapped]
        exact ⟨_, rfl, rfl, rfl⟩
    · simp only [if_pos hanalog]
      exact ⟨_, rfl, rfl, rfl⟩

end IoBanks

/-! ### Every bulk load -/

/-- A row is loaded if and only if the data end inside it, and so are the memories of a chip: then the
cells from the offset on hold the data cut down to words, and nothing else is changed. Else the error
is about an index that the row does not have. A field of bits and the three banks are loaded if and only
if each gets exactly as much as it holds. Whatever is refused is as it was, also where what it is loaded
with is written in place. -/
theorem bulkLoads_allOrNothing :
    (∀ (c : Cells) offset data, c.size < 2 ^ 63 →
      AllOrNothing (c.load offset data) (Cells.loadInPlace offset data) c
        (offset + data.length ≤ c.size) (c.Loaded offset data) (Error.IsPast c.size)) ∧
    (∀ (m : Memory) offset cells,
      (m.ram.size < 2 ^ 63 →
        AllOrNothing (m.loadRam offset cells) (Memory.loadRamInPlace offset cells) m
          (offset + cells.length ≤ m.ram.size) (m.RamLoaded offset cells)
          (Error.IsPast m.ram.size)) ∧
      (m.program.size < 2 ^ 63 →
        AllOrNothing (m.loadProgram offset cells) (Memory.loadProgramInPlace offset cells) m
          (offset + cells.length ≤ m.program.size) (m.ProgramLoaded offset cells)
          (Error.IsPast m.program.size))) ∧
    (∀ (c : Chip) offset cells, let m := c.storage.memory
      (m.ram.size < 2 ^ 63 →
        AllOrNothing (c.loadRam offset cells)
          (Chip.memoryInPlace (Memory.loadRamInPlace offset cells)) c
          (offset + cells.length ≤ m.ram.size)
          (fun c' => ∃ m', m.RamLoaded offset cells m' ∧ c.putMemory m' = c')
          (fun e' => ∃ e, Error.IsPast m.ram.size e ∧ .spec e = e')) ∧
      (m.program.size < 2 ^ 63 →
        AllOrNothing (c.loadProgram offset cells)
          (Chip.memoryInPlace (Memory.loadProgramInPlace offset cells)) c
          (offset + cells.length ≤ m.program.size)
          (fun c' => ∃ m', m.ProgramLoaded offset cells m' ∧ c.putMemory m' = c')
          (fun e' => ∃ e, Error.IsPast m.program.size e ∧ .spec e = e'))) ∧
    (∀ (f : BitField) bytes,
      AllOrNothing (f.loadBytes bytes) (BitField.loadBytesInPlace bytes) f
        (bytes.length = f.units.size) (f.Loaded bytes)
        (.outOfBounds bytes.length f.units.size = ·)) ∧
    ∀ (b : IoBanks) digital analog mapped,
      AllOrNothing (b.load digital analog mapped) (IoBanks.loadInPlace digital analog mapped) b
        (digital.length = b.digital.units.size ∧ analog.length = b.analog.size ∧
          mapped.length = b.mapped.size)
        (fun b' => b.digital.Loaded digital b'.digital ∧ b.analog.Loaded 0 analog b'.analog ∧
          b.mapped.Loaded 0 mapped b'.mapped)
        (b.refusal digital analog mapped = ·) := by
  refine ⟨fun c offset data hsize => Cells.load_allOrNothing hsize offset data,
    fun m offset cells => ⟨fun hsize => ?_, fun hsize => ?_⟩,
    fun c offset cells => ⟨fun hsize => ?_, fun hsize => ?_⟩,
    BitField.loadBytes_allOrNothing, IoBanks.load_allOrNothing⟩
  · exact m.loadRam_allOrNothing hsize offset cells
  · exact m.loadProgram_allOrNothing hsize offset cells
  · exact c.withMemory_allOrNothing (c.storage.memory.loadRam_allOrNothing hsize offset cells)
  · exact c.withMemory_allOrNothing (c.storage.memory.loadProgram_allOrNothing hsize offset cells)

/-- A row of three cells, which has room for nothing at its end but not behind it, a program that leaves
RAM as it is, and banks with a byte too many for their four pins. -/
theorem bulkLoads_allOrNothing_small :
    let c : Cells := ⟨.w8, false, #[1, 2, 3]⟩
    let b : IoBanks := ⟨BitField.zero 4, c, c⟩
    (∃ c', Cells.loadInPlace 1 [300, 5] c = .ok () c' ∧
      c'.raw[0]? = some 1 ∧ c'.raw[1]? = some 44) ∧
    (∃ c', Cells.loadInPlace 3 [] c = .ok () c') ∧
    (∃ e, Cells.loadInPlace 4 [] c = .error e c ∧ Error.IsPast 3 e) ∧
    (∃ e, Cells.loadInPlace (2 ^ 64 - 1) [0, 0] c = .error e c ∧ Error.IsPast 3 e) ∧
    (∃ m', Memory.loadProgramInPlace 2 [9] ⟨c, some c⟩ = .ok () m' ∧ m'.ram = c ∧
      m'.program.raw[2]? = some 9) ∧
    IoBanks.loadInPlace [0, 0] [4, 5, 6] [7, 8, 9] b = .error (.outOfBounds 2 1) b := by
  intro c b
  obtain ⟨hrows, hmemories, -, -, hbanks⟩ := bulkLoads_allOrNothing
  have hsize : c.size < 2 ^ 63 := by decide
  obtain ⟨c', -, hloaded, hcells⟩ := (hrows c 1 [300, 5] hsize).loads (by decide)
  obtain ⟨d, -, hempty, -⟩ := (hrows c 3 [] hsize).loads (by decide)
  obtain ⟨e, -, hbehind, hpast⟩ := (hrows c 4 [] hsize).refuses (by decide)
  obtain ⟨e', -, hfar, hpast'⟩ := (hrows c (2 ^ 64 - 1) [0, 0] hsize).refuses (by decide)
  obtain ⟨_, -, hprogram, program, hwritten, rfl⟩ :=
    ((hmemories ⟨c, some c⟩ 2 [9]).2 hsize).loads (by decide)
  obtain ⟨e'', -, hbanks, rfl⟩ := (hbanks b [0, 0] [4, 5, 6] [7, 8, 9]).refuses (by decide)
  have hcut : c'.raw[1]? = some 44 := (hcells.cell 1).trans (by decide)
  exact ⟨⟨c', hloaded, hcells.cell 0, hcut⟩, ⟨d, hempty⟩, ⟨e, hbehind, hpast⟩, ⟨e', hfar, hpast'⟩,
    ⟨_, hprogram, rfl, hwritten.cell 2⟩, hbanks⟩

end Microcontroller
