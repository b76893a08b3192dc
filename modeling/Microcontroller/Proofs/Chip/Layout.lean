import Microcontroller.Chip.Execute
import Microcontroller.Proofs.Bits.Padding
import Microcontroller.Proofs.Word.Row
/-!
# Storage as its configuration lays it out

`Storage.Conforms` is what a configuration fixes about storage and no instruction may change: how
many cells there are of each kind, that none of them holds more than a word, and that the two
pointers are words. Memory and the I/O banks keep their share of it under everything that a host can
do to them. A write whose place exists and whose value is a word keeps it too, and so does every
series of such writes followed by flags.
-/

namespace Microcontroller

variable {config : Config} {w : Width} {bits : Nat}

/-! ### Memory -/

/-- Memory of the sizes that the configuration gives it. -/
structure Memory.Conforms (config : Config) (w : Width) (m : Memory) : Prop where
  ram : m.ram.Fits w config.ramSize
  rom_isSome : m.rom.isSome = config.hasRom
  rom : ∀ rom ∈ m.rom, rom.Fits w config.romSize

namespace Memory

variable {m m' : Memory}

theorem zero_conforms (config : Config) (w : Width) : (zero config w).Conforms config w where
  ram := Cells.zero_fits w _
  rom_isSome := by
    rw [zero]
    dsimp only
    split
    next h => exact h.symm
    next h => exact (Bool.not_eq_true _ ▸ h : config.hasRom = false).symm
  rom rom hrom := by
    rw [zero] at hrom
    dsimp only at hrom
    split at hrom <;> cases hrom
    exact Cells.zero_fits w _

theorem Conforms.clear (h : m.Conforms config w) : m.clear.Conforms config w where
  ram := h.ram.clear
  rom_isSome := Option.isSome_map.trans h.rom_isSome
  rom rom hrom := by
    obtain ⟨old, hold, rfl⟩ := Option.map_eq_some_iff.1 hrom
    exact (h.rom old hold).clear

theorem Conforms.loadRam (h : m.Conforms config w) {offset : Nat} {cells : List Nat}
    (hm : m.loadRam offset cells = .ok m') : m'.Conforms config w := by
  obtain ⟨ram, hram, hm⟩ := bind_ok_iff.1 hm
  cases hm
  exact { h with ram := h.ram.load hram }

theorem Conforms.loadProgram (h : m.Conforms config w) {offset : Nat} {cells : List Nat}
    (hm : m.loadProgram offset cells = .ok m') : m'.Conforms config w := by
  rw [Memory.loadProgram] at hm
  split at hm
  next old hold =>
    obtain ⟨rom, hrom, hm⟩ := bind_ok_iff.1 hm
    cases hm
    refine ⟨h.ram, ?_, fun r hr => ?_⟩
    · rw [← h.rom_isSome, hold]
      rfl
    · cases hr
      exact (h.rom old hold).load hrom
  next => exact h.loadRam hm

/-- A program is loaded into the memory that it will run from. -/
theorem load_program {offset : Nat} {cells : List Nat} (h : m.loadProgram offset cells = .ok m') :
    m.program.load offset cells = .ok m'.program := by
  rw [loadProgram] at h
  split at h
  next rom hrom =>
    obtain ⟨rom', hload, h⟩ := bind_ok_iff.1 h
    cases h
    rw [program, hrom]
    exact hload
  next hrom =>
    obtain ⟨ram, hload, h⟩ := bind_ok_iff.1 h
    cases h
    simp only [program, hrom, Option.getD_none]
    exact hload

theorem Conforms.exists_program_fits (h : m.Conforms config w) : ∃ len, m.program.Fits w len := by
  rw [program]
  cases hrom : m.rom with
  | none => exact ⟨_, h.ram⟩
  | some rom => exact ⟨_, h.rom rom hrom⟩

/-- The memory that programs run from holds words, be it ROM or RAM. -/
theorem Conforms.program_lt (h : m.Conforms config w) {r : Nat} (hr : r ∈ m.program.raw) :
    r < w.capacity := by
  obtain ⟨_, hfits⟩ := h.exists_program_fits
  exact hfits.lt r hr

end Memory

/-! ### I/O banks -/

/-- Banks of the sizes that the configuration gives them. -/
structure IoBanks.Conforms (config : Config) (w : Width) (b : IoBanks) : Prop where
  digital : b.digital.Tidy config.digital
  analog : b.analog.Fits w config.analog
  mapped : b.mapped.Fits w config.mapped

namespace IoBanks

variable {b b' : IoBanks}

theorem zero_conforms (config : Config) (w : Width) : (zero config w).Conforms config w :=
  ⟨BitField.zero_tidy _, Cells.zero_fits w _, Cells.zero_fits w _⟩

theorem Conforms.clear (h : b.Conforms config w) : b.clear.Conforms config w :=
  ⟨h.digital.clear, h.analog.clear, h.mapped.clear⟩

theorem Conforms.setPin (h : b.Conforms config w) {index : Nat} {value : Bool}
    (hb : b.setPin index value = .ok b') : b'.Conforms config w := by
  obtain ⟨digital, hdigital, hb⟩ := bind_ok_iff.1 hb
  cases hb
  exact { h with digital := h.digital.set hdigital }

theorem Conforms.setAnalog (h : b.Conforms config w) {channel value : Nat}
    (hb : b.setAnalog channel value = .ok b') : b'.Conforms config w := by
  obtain ⟨analog, hanalog, hb⟩ := bind_ok_iff.1 hb
  cases hb
  exact { h with analog := h.analog.setRaw hanalog }

theorem Conforms.setMapped (h : b.Conforms config w) {channel value : Nat}
    (hb : b.setMapped channel value = .ok b') : b'.Conforms config w := by
  obtain ⟨mapped, hmapped, hb⟩ := bind_ok_iff.1 hb
  cases hb
  exact { h with mapped := h.mapped.setRaw hmapped }

theorem Conforms.write (h : b.Conforms config w) {target : AddressMap.Target} {value : Nat}
    {result : Except Error IoBanks} (hresult : b.write target value = some result)
    (hb : result = .ok b') : b'.Conforms config w := by
  cases target <;> cases hresult
  case digital group =>
    obtain ⟨digital, hdigital, hb⟩ := bind_ok_iff.1 hb
    cases hb
    exact { h with digital := h.digital.setUnit hdigital }
  case analog channel => exact h.setAnalog hb
  case mapped channel => exact h.setMapped hb

end IoBanks

/-! ### Storage -/

/-- Storage with the sizes of `config`, words of width `w` and a status register of `bits` bits. -/
structure Storage.Conforms (config : Config) (w : Width) (bits : Nat) (s : Storage) : Prop where
  registers : s.registers.Fits w config.registers
  status : s.status.Tidy bits
  memory : s.memory.Conforms config w
  io : s.io.Conforms config w
  sp : s.sp < w.capacity
  ip : s.ip < w.capacity

/-- A write to a place that storage of this layout has, of a value that belongs there. -/
def Write.Fits (config : Config) (w : Width) (bits : Nat) : Write → Prop
  | .register index _ => index < config.registers
  | .ram address _ => address < config.ramSize
  | .stackPointer value => value < w.capacity
  | .status index _ => index < bits
  | .pin index _ => index < config.digital
  | .pinGroup index _ => index < BitField.unitsFor config.digital
  | .analog channel _ => channel < config.analog
  | .mapped channel _ => channel < config.mapped

/-- A plan all of whose writes fit, and that goes on at an address that is a word. -/
structure Plan.Fits (config : Config) (w : Width) (bits : Nat) (plan : Plan) : Prop where
  writes : ∀ write ∈ plan.writes, write.Fits config w bits
  target : ∀ target, plan.flow = .jump target → target < w.capacity

namespace Storage

variable {s : Storage} {layout : FlagLayout}

theorem zero_conforms (config : Config) (w : Width) (bits : Nat) :
    (zero config w bits).Conforms config w bits where
  registers := Cells.zero_fits w _
  status := BitField.zero_tidy bits
  memory := Memory.zero_conforms config w
  io := IoBanks.zero_conforms config w
  sp := w.capacity_pos
  ip := w.capacity_pos

theorem Conforms.clear (h : s.Conforms config w bits) : s.clear.Conforms config w bits where
  registers := h.registers.clear
  status := h.status.clear
  memory := h.memory.clear
  io := h.io.clear
  sp := w.capacity_pos
  ip := w.capacity_pos

theorem Conforms.apply (h : s.Conforms config w bits) {write : Write}
    (hwrite : write.Fits config w bits) : (s.apply write).Conforms config w bits := by
  cases write with
  | register index value => exact { h with registers := h.registers.put index value }
  | ram address value =>
    exact { h with memory := { h.memory with ram := h.memory.ram.put address value } }
  | stackPointer value => exact { h with sp := hwrite }
  | status index value => exact { h with status := h.status.put hwrite value }
  | pin index value => exact { h with io := { h.io with digital := h.io.digital.put hwrite value } }
  | pinGroup index value =>
    exact { h with io := { h.io with digital := h.io.digital.putUnit index value } }
  | analog channel value =>
    exact { h with io := { h.io with analog := h.io.analog.put channel value } }
  | mapped channel value =>
    exact { h with io := { h.io with mapped := h.io.mapped.put channel value } }

theorem Conforms.foldl_apply {writes : List Write} (h : s.Conforms config w bits)
    (hwrites : ∀ write ∈ writes, write.Fits config w bits) :
    (writes.foldl Storage.apply s).Conforms config w bits := by
  induction writes generalizing s with
  | nil => exact h
  | cons write rest ih =>
    obtain ⟨hwrite, hrest⟩ := List.forall_mem_cons.1 hwrites
    exact ih (h.apply hwrite) hrest

/-! ### Flags -/

def putFlag (layout : FlagLayout) (s : Storage) (f : Flag × Bool) : Storage :=
  { s with status := s.status.put (layout.index f.1) f.2 }

/-- In a status register with room for all flags, flags are set without fail. -/
theorem setFlags_eq (flags : List (Flag × Bool)) (hroom : ∀ f, layout.index f < s.status.len) :
    setFlags layout flags s = (.ok (), flags.foldl (putFlag layout) s) := by
  induction flags generalizing s with
  | nil => rfl
  | cons f rest ih =>
    rw [setFlags, if_pos (hroom f.1), List.foldl_cons]
    exact ih hroom

theorem Conforms.foldl_putFlag {flags : List (Flag × Bool)} (h : s.Conforms config w bits)
    (hroom : ∀ f, layout.index f < bits) :
    (flags.foldl (putFlag layout) s).Conforms config w bits := by
  induction flags generalizing s with
  | nil => exact h
  | cons f rest ih => exact ih { h with status := h.status.put (hroom f.1) f.2 }

/-! ### Carrying out a plan -/

/-- Storage after a plan, where nothing stands in its way. -/
def afterPlan (layout : FlagLayout) (plan : Plan) (s : Storage) : Storage :=
  plan.flags.foldl (putFlag layout) (plan.writes.foldl apply s)

/-- What no single write changes is not changed by any number of them. -/
theorem foldl_apply_eq {α : Type} (view : Storage → α)
    (h : ∀ s write, view (Storage.apply s write) = view s) (writes : List Write) (s : Storage) :
    view (writes.foldl apply s) = view s := by
  induction writes generalizing s with
  | nil => rfl
  | cons write rest ih => rw [List.foldl_cons, ih, h]

theorem status_len_apply (s : Storage) (write : Write) :
    (s.apply write).status.len = s.status.len := by
  cases write <;> rfl

/-- No write changes the length of the status register, so a plan cannot fail half-way. -/
theorem commit_eq (plan : Plan) (hroom : ∀ f, layout.index f < s.status.len) :
    s.commit layout plan = (.ok plan.flow, s.afterPlan layout plan) := by
  have hroom' : ∀ f, layout.index f < (plan.writes.foldl apply s).status.len := by
    have hlen := foldl_apply_eq (·.status.len) status_len_apply plan.writes s
    exact fun f => hlen ▸ hroom f
  rw [commit, setFlags_eq plan.flags hroom']
  rfl

theorem Conforms.afterPlan (h : s.Conforms config w bits) (hroom : ∀ f, layout.index f < bits)
    {plan : Plan} (hplan : plan.Fits config w bits) :
    (s.afterPlan layout plan).Conforms config w bits :=
  (h.foldl_apply hplan.writes).foldl_putFlag hroom

/-- Executing an instruction is planning it and carrying out the plan; if there is no plan, nothing
happens. -/
theorem execute_eq (d : Decoded) (hroom : ∀ f, layout.index f < s.status.len) :
    s.execute layout d = match Plan.of d s layout with
      | .ok plan => (.ok plan.flow, s.afterPlan layout plan)
      | .error fault => (.error fault, s) := by
  rw [execute]
  cases Plan.of d s layout with
  | ok plan => exact commit_eq plan hroom
  | error fault => rfl

end Storage

end Microcontroller
