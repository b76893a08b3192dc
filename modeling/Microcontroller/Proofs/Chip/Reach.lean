import Microcontroller.Proofs.Chip.Effect
import Microcontroller.Proofs.Chip.Place
import Microcontroller.Proofs.Chip.Shape
/-!
# What an instruction can reach

`Decoded.Reaches` says of every place in storage whether an instruction can write there, by what its
row and its operand cells name and by where the stack pointer stands, for any row of any table. The
writes of a plan go to places that its instruction reaches, as one sees from the shape of the plan;
so a cycle keeps what is at all other places.
-/

namespace Microcontroller

/-- Operations that write no register. -/
def Operation.keepsRegisters : Operation → Bool
  | nop | compare | store | push | output | setPin | clearPin | setFlag | clearFlag | bitStore
  | stop => true
  | op => op.isControlFlow

namespace Decoded

/-- The registers that an instruction can write in a bank of `registers`: both of its pointer if it
works on pairs, else the one that its first destination operand names. -/
def WritesRegister (d : Decoded) (registers i : Nat) : Prop :=
  match d.instruction.operation with
  | .addWord | .subtractWord => ∃ x p low high, d.operand? .pointer = some x ∧
      Pointer.ofIndex? x = some p ∧ p.pair? registers = some (low, high) ∧ (i = low ∨ i = high)
  | op => op.keepsRegisters = false ∧ d.operand? .destination = some i

/-- The instruction sends a word to this I/O target. -/
def Outputs (d : Decoded) (target : AddressMap.Target) : Prop :=
  d.instruction.operation = .output ∧
    ∃ a, d.operand? .ioAddress = some a ∧ AddressMap.resolve a = target

/-- The status bits that an operation on single bits writes, declared or not. -/
def WritesStatus (layout : FlagLayout) (d : Decoded) (i : Nat) : Prop :=
  d.instruction.operation ∈ [.setFlag, .clearFlag] ∧ d.operand? .flagBit = some i ∨
    d.instruction.operation = .bitStore ∧ i = layout.index .transfer

/-- The places that an instruction can write. -/
def Reaches (layout : FlagLayout) (d : Decoded) (s : Storage) : Place → Prop
  | .register i => d.WritesRegister s.registers.size i
  | .status i => (∃ f ∈ d.instruction.flags, layout.index f = i) ∨ d.WritesStatus layout i
  | .ram a => d.instruction.operation = .store ∧ Plan.address d s = .ok a ∨
      d.instruction.operation ∈ [.push, .call] ∧ a = d.width.wrap ((s.sp : Int) - 1)
  | .pin i => d.instruction.operation ∈ [.setPin, .clearPin] ∧ d.operand? .bit = some i ∨
      d.Outputs (.digital (i / AddressMap.groupPins))
  | .analog channel => d.Outputs (.analog channel)
  | .mapped channel => d.Outputs (.mapped channel)
  | .stackPointer => d.instruction.operation.usesStack = true ∨ d.Outputs .stackPointer

end Decoded

variable {d : Decoded} {s : Storage} {layout : FlagLayout} {plan : Plan}

/-! ### The writes of a plan -/

/-- The places that a write goes to. -/
def Write.Touches : Write → Place → Prop
  | .register index _, place => place = .register index
  | .ram address _, place => place = .ram address
  | .stackPointer _, place => place = .stackPointer
  | .status index _, place => place = .status index
  | .pin index _, place => place = .pin index
  | .pinGroup group _, place => ∃ i, place = .pin i ∧ i / AddressMap.groupPins = group
  | .analog channel _, place => place = .analog channel
  | .mapped channel _, place => place = .mapped channel

theorem Write.touches_of_mem_changes {write : Write} {w : Width} {pins x : Nat} {place : Place}
    (h : (place, x) ∈ write.changes w pins) : write.Touches place := by
  cases write with
  | pinGroup group value =>
    obtain ⟨i, hplace, hgroup, -⟩ := mem_groupChanges_iff.1 h
    exact ⟨i, hplace, hgroup⟩
  | _ => exact (Prod.mk.inj (List.mem_singleton.1 h)).1

/-- A series of writes keeps what is at a place that none of them goes to. -/
theorem Storage.Conforms.kept_foldl {config : Config} {w : Width} {bits : Nat} {writes : List Write}
    {place : Place} (hs : s.Conforms config w bits)
    (hwrites : ∀ write ∈ writes, write.Fits config w bits)
    (hplace : ∀ write ∈ writes, ¬ write.Touches place) :
    (writes.foldl Storage.apply s).valueAt place = s.valueAt place := by
  induction writes generalizing s with
  | nil => rfl
  | cons write rest ih =>
    obtain ⟨hwrite, hrest⟩ := List.forall_mem_cons.1 hwrites
    obtain ⟨hfirst, hplace⟩ := List.forall_mem_cons.1 hplace
    have hkept := (hs.updated_apply hwrite).kept place fun _ hmem =>
      hfirst (Write.touches_of_mem_changes hmem)
    exact (ih (hs.apply hwrite) hrest hplace).trans hkept

/-- The write goes to places that the instruction reaches, and to no other. -/
def Write.Within (layout : FlagLayout) (d : Decoded) (s : Storage) (write : Write) : Prop :=
  ∀ place, write.Touches place → d.Reaches layout s place

namespace Plan

theorem within_of_reaches {write : Write} {place : Place} (hwrite : ∀ q, write.Touches q → q = place)
    (h : d.Reaches layout s place) : write.Within layout d s := by
  intro q hq
  rw [hwrite q hq]
  exact h

/-- Where no operation in question keeps the registers or works on pairs, the register written is the
destination. -/
theorem destination_within {ops : List Operation} {rd : Nat}
    (hops : ∀ op ∈ ops, op.keepsRegisters = false ∧ op ∉ [.addWord, .subtractWord])
    (hop : d.instruction.operation ∈ ops) (hrd : registerIndex d s .destination = .ok rd)
    (value : Nat) : (Write.register rd value).Within layout d s := by
  obtain ⟨hkeeps, hpair⟩ := hops _ hop
  obtain ⟨hrd, -⟩ := registerIndex_ok_iff.1 hrd
  refine within_of_reaches (fun _ => id) ?_
  rw [Decoded.Reaches, Decoded.WritesRegister]
  split
  next hadd => exact absurd (by rw [hadd]; decide) hpair
  next hsubtract => exact absurd (by rw [hsubtract]; decide) hpair
  next => exact ⟨hkeeps, hrd⟩

theorem pair_within {p : Nat × Nat} (hop : d.instruction.operation ∈ [.addWord, .subtractWord])
    (hp : pair d s = .ok p) (low high : Nat) :
    (Write.register p.1 low).Within layout d s ∧ (Write.register p.2 high).Within layout d s := by
  have hwrites (i : Nat) (hi : i = p.1 ∨ i = p.2) : d.WritesRegister s.registers.size i := by
    obtain ⟨x, hx, hbound, hpair⟩ := pair_ok_iff.1 hp
    obtain ⟨pointer, hpointer, hpair⟩ := Option.bind_eq_some_iff.1
      (Pointer.pair?_ofIndex?_eq_some_iff.2 ⟨hbound, hpair⟩)
    have hpair : pointer.pair? s.registers.size = some (p.1, p.2) := hpair
    rw [Decoded.WritesRegister]
    rcases List.mem_pair.1 hop with hop | hop
    all_goals
      rw [hop]
      exact ⟨x, pointer, p.1, p.2, hx, hpointer, hpair, hi⟩
  exact ⟨within_of_reaches (fun _ => id) (hwrites p.1 (.inl rfl)),
    within_of_reaches (fun _ => id) (hwrites p.2 (.inr rfl))⟩

theorem push_within {value : Nat} {writes : List Write}
    (hop : d.instruction.operation ∈ [.push, .call]) (h : push d s value = .ok writes) :
    ∀ write ∈ writes, write.Within layout d s := by
  obtain ⟨-, rfl⟩ := push_ok_iff.1 h
  have hstack : d.instruction.operation.usesStack = true := by
    rcases List.mem_pair.1 hop with hop | hop <;> rw [hop] <;> rfl
  have hram : d.Reaches layout s (.ram (d.width.wrap ((s.sp : Int) - 1))) := .inr ⟨hop, rfl⟩
  have hsp : d.Reaches layout s .stackPointer := .inl hstack
  exact List.forall_mem_cons.2 ⟨within_of_reaches (fun _ => id) hram,
    List.forall_mem_singleton.2 (within_of_reaches (fun _ => id) hsp)⟩

theorem drop_within (hop : d.instruction.operation.usesStack = true) :
    (drop d s).Within layout d s := by
  have hsp : d.Reaches layout s .stackPointer := .inl hop
  exact within_of_reaches (fun _ => id) hsp

/-- The target of an output is what its address resolves to, and a group of pins goes no further than
its eight. -/
theorem output_within {a value : Nat} {write : Write} (hop : d.instruction.operation = .output)
    (ha : cell d s .ioAddress = .ok a) (h : output d s a value = .ok write) :
    write.Within layout d s := by
  have houtputs {target : AddressMap.Target} (htarget : AddressMap.resolve a = target) :
      d.Outputs target := ⟨hop, a, cell_ok_iff.1 ha, htarget⟩
  rw [output] at h
  split at h
  next group htarget =>
    obtain ⟨_, hgroup, rfl⟩ := by simpa only [bind_ok_iff, pure_ok_iff] using h
    obtain ⟨-, rfl⟩ := within_ok_iff.1 hgroup
    rintro _ ⟨i, rfl, hi⟩
    exact .inr (hi ▸ houtputs htarget)
  next channel htarget =>
    obtain ⟨_, hchannel, rfl⟩ := by simpa only [bind_ok_iff, pure_ok_iff] using h
    obtain ⟨-, rfl⟩ := within_ok_iff.1 hchannel
    rintro _ rfl
    exact houtputs htarget
  next htarget =>
    cases h
    rintro _ rfl
    exact .inr (houtputs htarget)
  next channel htarget =>
    obtain ⟨_, hchannel, rfl⟩ := by simpa only [bind_ok_iff, pure_ok_iff] using h
    obtain ⟨-, rfl⟩ := within_ok_iff.1 hchannel
    rintro _ rfl
    exact houtputs htarget
  next => cases h

theorem declared_within (o : Alu.Outcome) :
    ∀ f ∈ declared d o, (Write.status (layout.index f.1) f.2).Within layout d s := by
  rintro ⟨f, v⟩ hf _ rfl
  exact .inl ⟨f, (mem_declared_iff.1 hf).1, rfl⟩

/-! ### All shapes -/

theorem within_of_parts {writes : List Write} {flags : List (Flag × Bool)} {flow : Flow}
    (hwrites : ∀ write ∈ writes, write.Within layout d s)
    (hflags : ∀ f ∈ flags, (Write.status (layout.index f.1) f.2).Within layout d s) :
    ∀ write ∈ allWrites layout ⟨writes, flags, flow⟩, write.Within layout d s := by
  intro write hmem
  rcases List.mem_append.1 hmem with hwrite | hflag
  · exact hwrites write hwrite
  · obtain ⟨f, hf, rfl⟩ := List.mem_map.1 hflag
    exact hflags f hf

theorem within_of_writes {writes : List Write} {flow : Flow}
    (h : ∀ write ∈ writes, write.Within layout d s) :
    ∀ write ∈ allWrites layout ⟨writes, [], flow⟩, write.Within layout d s :=
  within_of_parts h (List.forall_mem_nil _)

/-- A plan stays within the reach of its instruction. -/
theorem Shape.within (h : Shape d s plan) :
    ∀ write ∈ plan.allWrites layout, write.Within layout d s := by
  cases h with
  | nothing | goTo | stop => exact within_of_writes (List.forall_mem_nil _)
  | outcome hop hrd =>
    exact within_of_parts (List.forall_mem_singleton.2 (destination_within (by decide) hop hrd _))
      (declared_within _)
  | comparison => exact within_of_parts (List.forall_mem_nil _) (declared_within _)
  | pairOutcome hop hp =>
    obtain ⟨hlow, hhigh⟩ := pair_within hop hp _ _
    exact within_of_parts (List.forall_mem_cons.2 ⟨hlow, List.forall_mem_singleton.2 hhigh⟩)
      (declared_within _)
  | word hop hrd =>
    exact within_of_writes (List.forall_mem_singleton.2 (destination_within (by decide) hop hrd _))
  | pop hop hrd =>
    have hword (value : Nat) : (Write.register _ value).Within layout d s :=
      destination_within (by decide) (List.mem_singleton.2 hop) hrd value
    exact within_of_writes (List.forall_mem_cons.2
      ⟨hword _, List.forall_mem_singleton.2 (drop_within (by rw [hop]; rfl))⟩)
  | store hop ha =>
    have hram : d.Reaches layout s (.ram _) := .inl ⟨hop, ha⟩
    exact within_of_writes (List.forall_mem_singleton.2 (within_of_reaches (fun _ => id) hram))
  | push hop hwrites => exact within_of_writes (push_within (by rw [hop]; decide) hwrites)
  | call hop _ hwrites => exact within_of_writes (push_within (by rw [hop]; decide) hwrites)
  | output hop ha hw => exact within_of_writes (List.forall_mem_singleton.2 (output_within hop ha hw))
  | @pin b value hop hb =>
    refine within_of_writes (List.forall_mem_singleton.2 ?_)
    rintro _ rfl
    exact .inl ⟨by rw [hop]; cases value <;> decide, hb⟩
  | @statusBit b value hop hb =>
    refine within_of_writes (List.forall_mem_singleton.2 ?_)
    rintro _ rfl
    obtain ⟨hb, -⟩ := statusBit_ok_iff.1 hb
    exact .inr (.inl ⟨by rw [hop]; cases value <;> decide, hb⟩)
  | bitStore hop =>
    refine within_of_parts (List.forall_mem_nil _) (List.forall_mem_singleton.2 ?_)
    rintro _ rfl
    exact .inr (.inr ⟨hop, rfl⟩)
  | ret hop =>
    exact within_of_writes (List.forall_mem_singleton.2 (drop_within (by rw [hop]; rfl)))

end Plan

/-- Carrying out a plan keeps what is at the places that its instruction does not reach. -/
theorem Storage.Conforms.kept_afterPlan {set : InstructionSet} {config : Config} {w : Width}
    (hs : s.Conforms config w set.statusBits) (hfits : plan.Fits config w set.statusBits)
    (hplan : Plan.ofOperation d s set.flags = .ok plan) {place : Place}
    (hplace : ¬ d.Reaches set.flags s place) :
    (s.afterPlan set.flags plan).valueAt place = s.valueAt place := by
  have hwithin : ∀ write ∈ plan.allWrites set.flags, write.Within set.flags d s :=
    (Plan.shape_of_ofOperation hplan).within
  rw [Storage.afterPlan_eq]
  exact hs.kept_foldl (hfits.allWrites set.flags.index_lt_statusBits)
    fun write hwrite htouches => hplace (hwithin write hwrite place htouches)

/-! ### Cycles -/

namespace Chip

variable {set : InstructionSet} {c : Chip} {row : Instruction}

/-- A successful cycle keeps what is at the places that its instruction does not reach. -/
theorem CarriesOut.kept (hx : c.CarriesOut set row plan) (hc : c.Conforms set c.config) {place : Place}
    (hplace : ¬ (c.decodedAs row).Reaches set.flags c.storage place) :
    c.cycle.2.storage.valueAt place = c.storage.valueAt place := by
  rw [← hx.result, valueAt_advance]
  exact hc.storage.kept_afterPlan hx.fits hx.planned hplace

theorem CarriesOut.has (hx : c.CarriesOut set row plan) (place : Place) :
    c.cycle.2.storage.Has place ↔ c.storage.Has place := by
  rw [← hx.result, has_advance, Storage.afterPlan_eq]
  exact iff_of_eq (Storage.foldl_apply_eq (·.Has place)
    (fun s write => propext (Storage.has_apply s write place)) _ _)

theorem CarriesOut.rom (hx : c.CarriesOut set row plan) :
    c.cycle.2.storage.memory.rom = c.storage.memory.rom := by
  rw [← hx.result]
  change (c.storage.afterPlan set.flags plan).memory.rom = _
  rw [Storage.afterPlan_eq]
  exact Storage.foldl_apply_eq (·.memory.rom) Storage.rom_apply _ _

end Chip

end Microcontroller
