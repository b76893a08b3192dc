import Microcontroller.Proofs.M1047.Step
/-!
# Moving data and single bits

What the instructions of the family that move data or single bits do, said by mnemonic as a list of
places with their new values. The values are those that the chip held before the instruction, so it
makes no difference whether an instruction writes a register that it also reads. Pins and status bits
are counted from the top of their byte, and the bits of a register from its lowest.
-/

namespace Microcontroller.M1047

/-! ### What the instructions change -/

/-- The stack pointer after a push. -/
def pushed (c : Chip) : Nat := (((c.storage.sp : Int) - 1) % 2 ^ c.config.bits).toNat

/-- The stack pointer after a pop. -/
def popped (c : Chip) : Nat := (c.storage.sp + 1) % 2 ^ c.config.bits

/-- The word at an I/O address. That of a port is made of its eight pins, the first on top, and a pin
that the chip lacks is low. -/
def ioWord (c : Chip) (address : Nat) : Nat :=
  if address < 8 then
    ((List.range 8).map fun j => c.storage.valueAt (.pin (8 * address + j)) * 2 ^ (7 - j)).sum
  else if address < 16 then c.storage.valueAt (.analog (address - 8))
  else if address = 0x1D then c.storage.sp
  else c.storage.valueAt (.mapped (address - 0x20))

/-- What sending a word to an I/O address changes. A port takes the low byte of it. -/
def ioChanges (c : Chip) (address word : Nat) : List (Place × Nat) :=
  if address < 8 then groupChanges c.config.digital address word
  else if address < 16 then [(.analog (address - 8), word)]
  else if address = 0x1D then [(.stackPointer, word)]
  else [(.mapped (address - 0x20), word)]

/-- A word with one of its bits replaced: the bits above it, it, and those below. -/
def replaceBit (word bit : Nat) (value : Bool) : Nat :=
  2 ^ bit * (2 * (word / 2 ^ (bit + 1)) + value.toNat) + word % 2 ^ bit

/-- What an instruction changes, by its mnemonic; its operands are in the cells after the opcode. -/
def changes? (c : Chip) : String → Option (List (Place × Nat))
  | "MOV" => some [(.register (c.cellAt 1), c.word (c.cellAt 2))]
  | "LDI" => some [(.register (c.cellAt 1), c.cellAt 2)]
  | "LD" => some [(.register (c.cellAt 1), c.storage.valueAt (.ram (pointed c (c.cellAt 2))))]
  | "LDS" => some [(.register (c.cellAt 1), c.storage.valueAt (.ram (c.cellAt 2)))]
  | "ST" => some [(.ram (pointed c (c.cellAt 1)), c.word (c.cellAt 2))]
  | "STS" => some [(.ram (c.cellAt 1), c.word (c.cellAt 2))]
  | "PUSH" => some [(.ram (pushed c), c.word (c.cellAt 1)), (.stackPointer, pushed c)]
  | "POP" =>
    some [(.register (c.cellAt 1), c.storage.valueAt (.ram c.storage.sp)), (.stackPointer, popped c)]
  | "IN" => some [(.register (c.cellAt 1), ioWord c (c.cellAt 2))]
  | "OUT" => some (ioChanges c (c.cellAt 1) (c.word (c.cellAt 2)))
  | "SBI" => some [(.pin (c.cellAt 1), 1)]
  | "CBI" => some [(.pin (c.cellAt 1), 0)]
  | "BSET" => some [(.status (c.cellAt 1), 1)]
  | "BCLR" => some [(.status (c.cellAt 1), 0)]
  | "BST" => some [(.status (instructionSet.flags.index .transfer),
      ((c.word (c.cellAt 1)).testBit (c.cellAt 2)).toNat)]
  | "BLD" => some [(.register (c.cellAt 1),
      replaceBit (c.word (c.cellAt 1)) (c.cellAt 2) (c.flag .transfer))]
  | _ => none

/-- The operation and the operands that a mnemonic stands for. -/
def transferForm? : String → Option (Operation × List OperandKind)
  | "MOV" => some (.move, [.destination, .source])
  | "LDI" => some (.move, [.destination, .immediate])
  | "LD" => some (.load, [.destination, .pointer])
  | "LDS" => some (.load, [.destination, .address])
  | "ST" => some (.store, [.pointer, .source])
  | "STS" => some (.store, [.address, .source])
  | "PUSH" => some (.push, [.source])
  | "POP" => some (.pop, [.destination])
  | "IN" => some (.input, [.destination, .ioAddress])
  | "OUT" => some (.output, [.ioAddress, .source])
  | "SBI" => some (.setPin, [.bit])
  | "CBI" => some (.clearPin, [.bit])
  | "BSET" => some (.setFlag, [.flagBit])
  | "BCLR" => some (.clearFlag, [.flagBit])
  | "BST" => some (.bitStore, [.destination, .bit])
  | "BLD" => some (.bitLoad, [.destination, .bit])
  | _ => none

theorem form_of_transfer : ∀ row ∈ rows, ∀ form ∈ transferForm? row.mnemonic,
    row.operation = form.1 ∧ row.operands = form.2 := by decide

/-! ### Single bits -/

theorem testBit_replaceBit (word bit : Nat) (value : Bool) (i : Nat) :
    (replaceBit word bit value).testBit i = if i = bit then value else word.testBit i := by
  have hlow : word % 2 ^ bit < 2 ^ bit := Nat.mod_lt _ (Nat.two_pow_pos _)
  rw [replaceBit, Nat.testBit_two_pow_mul_add _ hlow]
  rcases Nat.lt_trichotomy i bit with hi | rfl | hi
  · rw [if_pos hi, if_neg (Nat.ne_of_lt hi), Nat.testBit_mod_two_pow, decide_eq_true hi,
      Bool.true_and]
  · rw [if_neg (Nat.lt_irrefl _), if_pos rfl, Nat.sub_self, Nat.testBit_zero]
    cases value <;> simp
  · obtain ⟨k, rfl⟩ := Nat.exists_eq_add_of_lt hi
    have hhalf : (2 * (word / 2 ^ (bit + 1)) + value.toNat) / 2 = word / 2 ^ (bit + 1) := by
      have hvalue := value.toNat_lt
      omega
    have hk : bit + k + 1 - bit = k + 1 := by omega
    rw [if_neg (Nat.lt_asymm hi), if_neg (Nat.ne_of_gt hi), hk, Nat.testBit_succ, hhalf,
      Nat.testBit_div_two_pow]
    congr 1
    omega

theorem withBit_eq (word bit : Nat) (value : Bool) :
    Plan.withBit word bit value = replaceBit word bit value := by
  refine Nat.eq_of_testBit_eq fun i => ?_
  rw [Plan.testBit_withBit, testBit_replaceBit]

theorem withBit_lt {word bit n : Nat} (hword : word < 2 ^ n) (hbit : bit < n) (value : Bool) :
    Plan.withBit word bit value < 2 ^ n := by
  rw [Plan.withBit]
  split
  · exact hword
  · exact Nat.xor_lt_two_pow hword (Nat.pow_lt_pow_right (by decide) hbit)

/-! ### Ports -/

theorem toNat_eq_sum (unit : Byte) :
    unit.toNat = ((List.range 8).map fun j => (unit.getMsbD j).toNat * 2 ^ (7 - j)).sum := by
  have all : ∀ unit : Byte,
      unit.toNat = ((List.range 8).map fun j => (unit.getMsbD j).toNat * 2 ^ (7 - j)).sum := by
    decide +kernel
  exact all unit

/-- A group takes the low byte of what is sent to it. -/
theorem groupChanges_ofNat (pins group word : Nat) :
    groupChanges pins group (BitVec.ofNat 8 word).toNat = groupChanges pins group word := by
  have hbit : ∀ j, ((BitVec.ofNat 8 word).toNat).testBit (7 - j) = word.testBit (7 - j) := by
    intro j
    have hj : 7 - j < 8 := by omega
    rw [BitVec.toNat_ofNat, Nat.testBit_mod_two_pow, decide_eq_true hj, Bool.true_and]
  simp only [groupChanges, hbit]

section

variable {c : Chip}

theorem sum_pins (c : Chip) (group : Nat) :
    ((List.range 8).map fun j => c.storage.valueAt (.pin (8 * group + j)) * 2 ^ (7 - j)).sum =
      (c.storage.io.digital.units.getD group 0).toNat := by
  rw [toNat_eq_sum]
  congr 1
  refine List.map_congr_left fun j hj => ?_
  have hj : j < 8 := List.mem_range.1 hj
  have hdiv : (8 * group + j) / 8 = group := by omega
  have hmod : (8 * group + j) % 8 = j := by omega
  rw [Storage.valueAt, BitField.bit, hdiv, hmod]

theorem input_eq {address word : Nat} (h : Plan.input c.storage address = .ok word) :
    word = ioWord c address := by
  rw [ioWord]
  by_cases hport : address < 8
  · rw [Plan.input, AddressMap.resolve_digital hport] at h
    obtain ⟨_, hgroup, hword⟩ := bind_ok_iff.1 h
    obtain ⟨-, rfl⟩ := Plan.within_ok_iff.1 hgroup
    rw [if_pos hport, sum_pins]
    exact (pure_ok_iff.1 hword).symm
  by_cases hchannel : address < 16
  · rw [Plan.input, AddressMap.resolve_analog (Nat.le_of_not_lt hport) hchannel] at h
    obtain ⟨_, hindex, hword⟩ := bind_ok_iff.1 h
    obtain ⟨-, rfl⟩ := Plan.within_ok_iff.1 hindex
    rw [if_neg hport, if_pos hchannel]
    exact (pure_ok_iff.1 hword).symm
  by_cases hstack : address = 0x1D
  · subst hstack
    cases h
    rfl
  by_cases hmapped : 0x20 ≤ address
  · rw [Plan.input, AddressMap.resolve_mapped hmapped] at h
    obtain ⟨_, hindex, hword⟩ := bind_ok_iff.1 h
    obtain ⟨-, rfl⟩ := Plan.within_ok_iff.1 hindex
    rw [if_neg hport, if_neg hchannel, if_neg hstack]
    exact (pure_ok_iff.1 hword).symm
  · rw [Plan.input, AddressMap.resolve_reserved (Nat.le_of_not_lt hchannel)
      (Nat.lt_of_not_le hmapped) hstack] at h
    cases h

theorem output_changes {d : Decoded} (hd : d.width = c.width) {address word : Nat}
    (hword : word < c.width.capacity) {write : Write}
    (h : Plan.output d c.storage address word = .ok write) :
    write.changes c.width c.config.digital = ioChanges c address word := by
  have htruncate := Width.truncate_of_lt hword
  rw [ioChanges]
  by_cases hport : address < 8
  · rw [Plan.output, AddressMap.resolve_digital hport] at h
    obtain ⟨_, hgroup, hwrite⟩ := bind_ok_iff.1 h
    obtain ⟨-, rfl⟩ := Plan.within_ok_iff.1 hgroup
    rw [if_pos hport, ← pure_ok_iff.1 hwrite, Write.changes, groupChanges_ofNat]
  by_cases hchannel : address < 16
  · rw [Plan.output, AddressMap.resolve_analog (Nat.le_of_not_lt hport) hchannel] at h
    obtain ⟨_, hindex, hwrite⟩ := bind_ok_iff.1 h
    obtain ⟨-, rfl⟩ := Plan.within_ok_iff.1 hindex
    rw [if_neg hport, if_pos hchannel, ← pure_ok_iff.1 hwrite, Write.changes, htruncate]
  by_cases hstack : address = 0x1D
  · subst hstack
    rw [Plan.output, AddressMap.resolve_stackPointer, hd, htruncate] at h
    cases h
    rfl
  by_cases hmapped : 0x20 ≤ address
  · rw [Plan.output, AddressMap.resolve_mapped hmapped] at h
    obtain ⟨_, hindex, hwrite⟩ := bind_ok_iff.1 h
    obtain ⟨-, rfl⟩ := Plan.within_ok_iff.1 hindex
    rw [if_neg hport, if_neg hchannel, if_neg hstack, ← pure_ok_iff.1 hwrite, Write.changes,
      htruncate]
  · rw [Plan.output, AddressMap.resolve_reserved (Nat.le_of_not_lt hchannel)
      (Nat.lt_of_not_le hmapped) hstack] at h
    cases h

variable (hc : c.Conforms instructionSet c.config)

include hc

theorem ioWord_lt (address : Nat) : ioWord c address < c.width.capacity := by
  have hs := hc.storage
  rw [ioWord]
  split
  · rw [sum_pins]
    exact c.width.byte_lt_capacity _
  split
  · exact hs.io.analog.getD_lt _
  split
  · exact hs.sp
  · exact hs.io.mapped.getD_lt _

/-! ### The stack -/

theorem wrap_pushed : c.width.wrap ((c.storage.sp : Int) - 1) = pushed c := by
  rw [pushed, ← Config.bits_of_width? hc.width, Width.wrap, TwosComplement.encode, Int.natCast_pow]
  rfl

theorem wrap_popped : c.width.wrap ((c.storage.sp : Int) + 1) = popped c := by
  rw [popped, ← Config.bits_of_width? hc.width]
  exact c.width.wrap_natCast (c.storage.sp + 1)

end

/-! ### Plans -/

namespace Executes

variable {c : Chip} {row : Instruction} {plan : Plan} (hx : Executes c row plan)

include hx

theorem address_indirect (hc : c.Conforms instructionSet c.config) {k : Nat}
    (hk : row.operands[k]? = some .pointer) {a : Nat}
    (h : Plan.address (c.decodedAs row) c.storage = .ok a) : a = pointed c (c.cellAt (k + 1)) := by
  have hhas : (c.decodedAs row).has .pointer = true := Decoded.has_iff.2 (List.mem_of_getElem? hk)
  rw [Plan.address_ok_iff, if_pos hhas] at h
  obtain ⟨p, hpair, ha⟩ := h
  obtain ⟨x, hx', -, rfl⟩ := Plan.pair_ok_iff.1 hpair
  obtain rfl := hx.cell_eq hk (Plan.cell_ok_iff.2 hx')
  rw [← ha, pairWord_eq hc]

theorem address_direct {k : Nat} (hk : row.operands[k]? = some .address)
    (hpointer : .pointer ∉ row.operands) {a : Nat}
    (h : Plan.address (c.decodedAs row) c.storage = .ok a) : a = c.cellAt (k + 1) := by
  have hhas : ¬ (c.decodedAs row).has .pointer = true := fun h => hpointer (Decoded.has_iff.1 h)
  rw [Plan.address_ok_iff, if_neg hhas] at h
  exact hx.cell_eq hk (Plan.cell_ok_iff.2 h)

theorem move_plan (hc : c.Conforms instructionSet c.config) (hop : row.operation = .move)
    (hoperands : row.operands ∈ [[.destination], [.destination, .source], [.destination, .immediate]])
    (hrd : row.operands[0]? = some .destination) :
    plan = .write [.register (c.cellAt 1) (secondWord c row)] := by
  have hop : (c.decodedAs row).instruction.operation = .move := hop
  have h := hx.planned
  simp only [Plan.ofOperation, hop] at h
  obtain ⟨word, hword, h⟩ := bind_ok_iff.1 h
  obtain ⟨rd, hindex, h⟩ := bind_ok_iff.1 h
  rw [← pure_ok_iff.1 h, second_eq_of_operands hc hx.mem hx.size hoperands hword,
    hx.registerIndex_eq hrd hindex]

theorem load_plan (hop : row.operation = .load) (hrd : row.operands[0]? = some .destination)
    {address : Nat} (haddress : ∀ a, Plan.address (c.decodedAs row) c.storage = .ok a → a = address) :
    plan = .write [.register (c.cellAt 1) (c.storage.valueAt (.ram address))] := by
  have hop : (c.decodedAs row).instruction.operation = .load := hop
  have h := hx.planned
  simp only [Plan.ofOperation, hop] at h
  obtain ⟨a, ha, h⟩ := bind_ok_iff.1 h
  obtain ⟨_, hwithin, h⟩ := bind_ok_iff.1 h
  obtain ⟨-, rfl⟩ := Plan.within_ok_iff.1 hwithin
  obtain ⟨rd, hindex, h⟩ := bind_ok_iff.1 h
  rw [← pure_ok_iff.1 h, hx.registerIndex_eq hrd hindex, haddress a ha]
  rfl

theorem store_plan (hop : row.operation = .store) (hrr : row.operands[1]? = some .source)
    {address : Nat} (haddress : ∀ a, Plan.address (c.decodedAs row) c.storage = .ok a → a = address) :
    plan = .write [.ram address (c.word (c.cellAt 2))] := by
  have hop : (c.decodedAs row).instruction.operation = .store := hop
  have h := hx.planned
  simp only [Plan.ofOperation, hop] at h
  obtain ⟨a, ha, h⟩ := bind_ok_iff.1 h
  obtain ⟨word, hword, h⟩ := bind_ok_iff.1 h
  obtain ⟨_, hwithin, h⟩ := bind_ok_iff.1 h
  obtain ⟨-, rfl⟩ := Plan.within_ok_iff.1 hwithin
  rw [← pure_ok_iff.1 h, hx.register_eq hrr hword, haddress a ha]

theorem push_plan (hc : c.Conforms instructionSet c.config) (hop : row.operation = .push)
    (hoperands : row.operands = [.source]) :
    plan = .write [.ram (pushed c) (c.word (c.cellAt 1)), .stackPointer (pushed c)] := by
  have hrr : row.operands[0]? = some .source := by rw [hoperands]; rfl
  have hop : (c.decodedAs row).instruction.operation = .push := hop
  have h := hx.planned
  simp only [Plan.ofOperation, hop] at h
  obtain ⟨word, hword, h⟩ := bind_ok_iff.1 h
  obtain ⟨writes, hwrites, h⟩ := bind_ok_iff.1 h
  obtain ⟨-, rfl⟩ := Plan.push_ok_iff.1 hwrites
  rw [← pure_ok_iff.1 h, hx.register_eq hrr hword, ← wrap_pushed hc]
  rfl

theorem pop_plan (hc : c.Conforms instructionSet c.config) (hop : row.operation = .pop)
    (hoperands : row.operands = [.destination]) :
    plan = .write [.register (c.cellAt 1) (c.storage.valueAt (.ram c.storage.sp)),
      .stackPointer (popped c)] := by
  have hrd : row.operands[0]? = some .destination := by rw [hoperands]; rfl
  have hop : (c.decodedAs row).instruction.operation = .pop := hop
  have h := hx.planned
  simp only [Plan.ofOperation, hop] at h
  obtain ⟨word, hword, h⟩ := bind_ok_iff.1 h
  obtain ⟨-, rfl⟩ := Plan.top_ok_iff.1 hword
  obtain ⟨rd, hindex, h⟩ := bind_ok_iff.1 h
  rw [← pure_ok_iff.1 h, hx.registerIndex_eq hrd hindex, ← wrap_popped hc]
  rfl

theorem input_plan (hop : row.operation = .input)
    (hoperands : row.operands = [.destination, .ioAddress]) :
    plan = .write [.register (c.cellAt 1) (ioWord c (c.cellAt 2))] := by
  have hrd : row.operands[0]? = some .destination := by rw [hoperands]; rfl
  have haddress : row.operands[1]? = some .ioAddress := by rw [hoperands]; rfl
  have hop : (c.decodedAs row).instruction.operation = .input := hop
  have h := hx.planned
  simp only [Plan.ofOperation, hop] at h
  obtain ⟨a, ha, h⟩ := bind_ok_iff.1 h
  obtain ⟨word, hword, h⟩ := bind_ok_iff.1 h
  obtain ⟨rd, hindex, h⟩ := bind_ok_iff.1 h
  rw [hx.cell_eq haddress ha] at hword
  rw [← pure_ok_iff.1 h, hx.registerIndex_eq hrd hindex, input_eq hword]

theorem output_plan (hc : c.Conforms instructionSet c.config) (hop : row.operation = .output)
    (hoperands : row.operands = [.ioAddress, .source]) :
    ∃ write, plan = .write [write] ∧ write.changes c.width c.config.digital =
      ioChanges c (c.cellAt 1) (c.word (c.cellAt 2)) := by
  have haddress : row.operands[0]? = some .ioAddress := by rw [hoperands]; rfl
  have hrr : row.operands[1]? = some .source := by rw [hoperands]; rfl
  have hop : (c.decodedAs row).instruction.operation = .output := hop
  have h := hx.planned
  simp only [Plan.ofOperation, hop] at h
  obtain ⟨a, ha, h⟩ := bind_ok_iff.1 h
  obtain ⟨word, hword, h⟩ := bind_ok_iff.1 h
  obtain ⟨write, hwrite, h⟩ := bind_ok_iff.1 h
  rw [hx.cell_eq haddress ha, hx.register_eq hrr hword] at hwrite
  exact ⟨write, (pure_ok_iff.1 h).symm, output_changes rfl (word_lt hc _) hwrite⟩

theorem pin_plan (hoperands : row.operands = [.bit]) (value : Bool)
    (hop : row.operation = if value then .setPin else .clearPin) :
    plan = .write [.pin (c.cellAt 1) value] := by
  have hbit : row.operands[0]? = some .bit := by rw [hoperands]; rfl
  have hop : (c.decodedAs row).instruction.operation = if value then .setPin else .clearPin := hop
  have h : Plan.pin (c.decodedAs row) c.storage value = .ok plan := by
    have h := hx.planned
    cases value <;>
      simpa only [Plan.ofOperation, hop, if_true, Bool.false_eq_true, if_false] using h
  obtain ⟨b, ⟨hb, -⟩, hplan⟩ := Plan.pin_ok_iff.1 h
  rw [← hplan, hx.cell_eq hbit (Plan.cell_ok_iff.2 hb)]

theorem statusBit_plan (hoperands : row.operands = [.flagBit]) (value : Bool)
    (hop : row.operation = if value then .setFlag else .clearFlag) :
    plan = .write [.status (c.cellAt 1) value] := by
  have hbit : row.operands[0]? = some .flagBit := by rw [hoperands]; rfl
  have hop : (c.decodedAs row).instruction.operation = if value then .setFlag else .clearFlag := hop
  have h : ∃ b, Plan.statusBit (c.decodedAs row) c.storage = .ok b ∧
      Plan.write [.status b value] = plan := by
    have h := hx.planned
    cases value <;> simpa only [Plan.ofOperation, hop, if_true, Bool.false_eq_true, if_false,
      bind_ok_iff, pure_ok_iff] using h
  obtain ⟨b, hb, hplan⟩ := h
  rw [← hplan, hx.cell_eq hbit (Plan.cell_ok_iff.2 (Plan.statusBit_ok_iff.1 hb).1)]

theorem bitStore_plan (hop : row.operation = .bitStore)
    (hoperands : row.operands = [.destination, .bit]) :
    plan = ⟨[], [(.transfer, (c.word (c.cellAt 1)).testBit (c.cellAt 2))], .next⟩ := by
  have hrd : row.operands[0]? = some .destination := by rw [hoperands]; rfl
  have hbit : row.operands[1]? = some .bit := by rw [hoperands]; rfl
  have hop : (c.decodedAs row).instruction.operation = .bitStore := hop
  have h := hx.planned
  simp only [Plan.ofOperation, hop] at h
  obtain ⟨b, hb, h⟩ := bind_ok_iff.1 h
  obtain ⟨word, hword, h⟩ := bind_ok_iff.1 h
  have hb := hx.cell_eq hbit (Plan.cell_ok_iff.2 (Plan.registerBit_ok_iff.1 hb).1)
  rw [← pure_ok_iff.1 h, hx.register_eq hrd hword, hb]

theorem bitLoad_plan (hc : c.Conforms instructionSet c.config) (hop : row.operation = .bitLoad)
    (hoperands : row.operands = [.destination, .bit]) :
    c.cellAt 2 < c.width.bits ∧ plan = .write [.register (c.cellAt 1)
      (Plan.withBit (c.word (c.cellAt 1)) (c.cellAt 2) (c.flag .transfer))] := by
  have hrd : row.operands[0]? = some .destination := by rw [hoperands]; rfl
  have hbit : row.operands[1]? = some .bit := by rw [hoperands]; rfl
  have hop : (c.decodedAs row).instruction.operation = .bitLoad := hop
  have hflag : c.flag .transfer = c.storage.flag instructionSet.flags .transfer := by
    rw [Chip.flag, hc.instructions]
  have h := hx.planned
  simp only [Plan.ofOperation, hop] at h
  obtain ⟨b, hb, h⟩ := bind_ok_iff.1 h
  obtain ⟨rd, hindex, h⟩ := bind_ok_iff.1 h
  obtain ⟨hb, hlt⟩ := Plan.registerBit_ok_iff.1 hb
  rw [hx.cell_eq hbit (Plan.cell_ok_iff.2 hb)] at h hlt
  rw [← pure_ok_iff.1 h, hx.registerIndex_eq hrd hindex, hflag]
  exact ⟨hlt, rfl⟩

/-! ### Effects -/

/-- A word that is written is not cut down. -/
theorem updated_word (hc : c.Conforms instructionSet c.config) {write : Write} {place : Place}
    {word : Nat} (hplan : plan = .write [write]) (hword : word < c.width.capacity)
    (hchanges : write.changes c.width c.config.digital = [(place, c.width.truncate word)]) :
    c.storage.Updated c.cycle.2.storage [(place, word)] := by
  have hupdated := hx.updated_write hc hplan
  rwa [hchanges, Width.truncate_of_lt hword] at hupdated

theorem updated_flag (hc : c.Conforms instructionSet c.config) {f : Flag} {value : Bool}
    (hplan : plan = ⟨[], [(f, value)], .next⟩) :
    c.storage.Updated c.cycle.2.storage [(.status (instructionSet.flags.index f), value.toNat)] := by
  subst hplan
  exact hx.updated hc (List.pairwise_singleton _ _)

end Executes

/-- An instruction that moves data or single bits changes what its mnemonic says, and no more. -/
theorem transfer_cycle {c : Chip} {row : Instruction} (h : Chip.Reachable instructionSet c)
    {flow : Flow} (hcycle : c.cycle.1 = .ok flow) (hat : c.rowAt? c.storage.ip = some row)
    {changes : List (Place × Nat)} (hchanges : changes? c row.mnemonic = some changes) :
    c.storage.Updated c.cycle.2.storage changes := by
  have hc := h.conforms
  obtain ⟨row', plan, hat', hx⟩ := exists_executes hc hcycle
  cases hat.symm.trans hat'
  have hram (a : Nat) : c.storage.valueAt (.ram a) < c.width.capacity :=
    hc.storage.memory.ram.getD_lt a
  have hform := form_of_transfer row hx.mem
  unfold changes? at hchanges
  split at hchanges <;> cases hchanges
  next hmov =>
    obtain ⟨hop, hoperands⟩ := hform _ (by rw [hmov]; rfl)
    have hword : secondWord c row = c.word (c.cellAt 2) := by simp only [secondWord, hoperands]
    have hplan := hx.move_plan hc hop (by rw [hoperands]; decide) (by rw [hoperands]; rfl)
    exact hx.updated_word hc (hword ▸ hplan) (word_lt hc _) rfl
  next hldi =>
    obtain ⟨hop, hoperands⟩ := hform _ (by rw [hldi]; rfl)
    have hk : row.operands[1]? = some .immediate := by rw [hoperands]; rfl
    have hword : secondWord c row = c.cellAt 2 := by simp only [secondWord, hoperands]
    have hplan := hx.move_plan hc hop (by rw [hoperands]; decide) (by rw [hoperands]; rfl)
    exact hx.updated_word hc (hword ▸ hplan) (cellAt_lt hc hx.mem hx.size hk) rfl
  next hld =>
    obtain ⟨hop, hoperands⟩ := hform _ (by rw [hld]; rfl)
    have hk : row.operands[1]? = some .pointer := by rw [hoperands]; rfl
    have hplan := hx.load_plan hop (by rw [hoperands]; rfl) fun _ => hx.address_indirect hc hk
    exact hx.updated_word hc hplan (hram _) rfl
  next hlds =>
    obtain ⟨hop, hoperands⟩ := hform _ (by rw [hlds]; rfl)
    have hk : row.operands[1]? = some .address := by rw [hoperands]; rfl
    have hpointer : .pointer ∉ row.operands := by rw [hoperands]; decide
    have hplan := hx.load_plan hop (by rw [hoperands]; rfl) fun _ => hx.address_direct hk hpointer
    exact hx.updated_word hc hplan (hram _) rfl
  next hst =>
    obtain ⟨hop, hoperands⟩ := hform _ (by rw [hst]; rfl)
    have hk : row.operands[0]? = some .pointer := by rw [hoperands]; rfl
    have hplan := hx.store_plan hop (by rw [hoperands]; rfl) fun _ => hx.address_indirect hc hk
    exact hx.updated_word hc hplan (word_lt hc _) rfl
  next hsts =>
    obtain ⟨hop, hoperands⟩ := hform _ (by rw [hsts]; rfl)
    have hk : row.operands[0]? = some .address := by rw [hoperands]; rfl
    have hpointer : .pointer ∉ row.operands := by rw [hoperands]; decide
    have hplan := hx.store_plan hop (by rw [hoperands]; rfl) fun _ => hx.address_direct hk hpointer
    exact hx.updated_word hc hplan (word_lt hc _) rfl
  next hpush =>
    obtain ⟨hop, hoperands⟩ := hform _ (by rw [hpush]; rfl)
    refine hx.updated_stack hc ?_ (by rintro ⟨⟩) (hx.push_plan hc hop hoperands)
    rw [Write.changes, Width.truncate_of_lt (word_lt hc _)]
  next hpop =>
    obtain ⟨hop, hoperands⟩ := hform _ (by rw [hpop]; rfl)
    refine hx.updated_stack hc ?_ (by rintro ⟨⟩) (hx.pop_plan hc hop hoperands)
    rw [Write.changes, Width.truncate_of_lt (hram _)]
  next hin =>
    obtain ⟨hop, hoperands⟩ := hform _ (by rw [hin]; rfl)
    exact hx.updated_word hc (hx.input_plan hop hoperands) (ioWord_lt hc _) rfl
  next hout =>
    obtain ⟨hop, hoperands⟩ := hform _ (by rw [hout]; rfl)
    obtain ⟨write, hplan, hwrite⟩ := hx.output_plan hc hop hoperands
    exact hwrite ▸ hx.updated_write hc hplan
  next hsbi =>
    obtain ⟨hop, hoperands⟩ := hform _ (by rw [hsbi]; rfl)
    exact hx.updated_write hc (hx.pin_plan hoperands true hop)
  next hcbi =>
    obtain ⟨hop, hoperands⟩ := hform _ (by rw [hcbi]; rfl)
    exact hx.updated_write hc (hx.pin_plan hoperands false hop)
  next hbset =>
    obtain ⟨hop, hoperands⟩ := hform _ (by rw [hbset]; rfl)
    exact hx.updated_write hc (hx.statusBit_plan hoperands true hop)
  next hbclr =>
    obtain ⟨hop, hoperands⟩ := hform _ (by rw [hbclr]; rfl)
    exact hx.updated_write hc (hx.statusBit_plan hoperands false hop)
  next hbst =>
    obtain ⟨hop, hoperands⟩ := hform _ (by rw [hbst]; rfl)
    exact hx.updated_flag hc (hx.bitStore_plan hop hoperands)
  next hbld =>
    obtain ⟨hop, hoperands⟩ := hform _ (by rw [hbld]; rfl)
    obtain ⟨hbit, hplan⟩ := hx.bitLoad_plan hc hop hoperands
    rw [← withBit_eq]
    exact hx.updated_word hc hplan (withBit_lt (word_lt hc _) hbit _) rfl

/-- A load over the lower register of its own pointer: the address is that from before. -/
theorem transfer_cycle_load :
    let config : Config := { Config.m1047 with registers := 2, ram := 2, rom := 3, mapped := 0 }
    let blank := Chip.blank instructionSet config .w8 .halt
    let c := ((blank.perform (.loadProgram 0 [0x1A, 0, 2])).perform (.loadRam 0 [5, 7])).perform
      (.setRegister 0 1)
    Chip.Reachable instructionSet c ∧ c.storage.valueAt (.register 0) = 1 ∧
      c.storage.Updated c.cycle.2.storage [(.register 0, 7)] := by
  intro config blank c
  have hnew : Chip.new instructionSet config .halt = .ok blank := rfl
  have hc : Chip.Reachable instructionSet c := .perform _ (.perform _ (.perform _ (.new hnew)))
  have hcycle : c.cycle.1 = .ok .next := by decide +kernel
  have hat : c.rowAt? c.storage.ip = some ⟨"LD", 0x1A, .load, [.destination, .pointer], [], none,
    "Load indirect: Rd = RAM[P]"⟩ := by decide +kernel
  have hchanges : changes? c "LD" = some [(.register 0, 7)] := by decide +kernel
  exact ⟨hc, rfl, transfer_cycle hc hcycle hat hchanges⟩

end Microcontroller.M1047
