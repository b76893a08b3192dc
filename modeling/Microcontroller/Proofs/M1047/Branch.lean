import Microcontroller.Proofs.Chip.Program
import Microcontroller.Proofs.Isa.RoundTrip
import Microcontroller.Proofs.M1047.Next
/-!
# Relative branches

An offset is written by the assembler and read by the chip in the same number of bits. So a branch
that is taken ends up as far away as its line of assembly says, at whatever address it was loaded.
-/

namespace Microcontroller.M1047

variable {c : Chip} {row : Instruction}

/-- The instruction at the instruction pointer, one of this row, is a relative branch that is taken. -/
def Taken (c : Chip) (row : Instruction) : Prop :=
  match row.mnemonic with
  | "BRBS" => c.cellAt 1 < 16 ∧ c.storage.status.bit (c.cellAt 1) = true
  | "BRBC" => c.cellAt 1 < 16 ∧ c.storage.status.bit (c.cellAt 1) = false
  | "RJMP" => True
  | _ => False

def relativeMnemonics : List String := ["BRBS", "BRBC", "RJMP"]

theorem Taken.mem (h : Taken c row) : row.mnemonic ∈ relativeMnemonics := by
  unfold Taken at h
  split at h
  next hbrbs => rw [hbrbs]; decide
  next hbrbc => rw [hbrbc]; decide
  next hrjmp => rw [hrjmp]; decide
  next => exact h.elim

theorem Taken.bit_lt (h : Taken c row) (hname : row.mnemonic ∈ ["BRBS", "BRBC"]) :
    c.cellAt 1 < 16 := by
  unfold Taken at h
  split at h
  next => exact h.1
  next => exact h.1
  next hrjmp =>
    rw [hrjmp] at hname
    exact absurd hname (by decide)
  next => exact h.elim

/-- Relative branches leave out no operand, and their last one is the offset. -/
theorem relative_rows : ∀ row ∈ rows, row.mnemonic ∈ relativeMnemonics →
    row.implied = none ∧ row.operands ∈ [[.flagBit, .offset], [.offset]] := by decide

theorem bit_operand : ∀ row ∈ rows, row.mnemonic ∈ ["BRBS", "BRBC"] →
    row.operands[0]? = some .flagBit := by decide

/-- A relative branch asks for a status bit at most. -/
theorem admits_relative {name : String} (hname : name ∈ relativeMnemonics)
    {fields : List (OperandKind × Nat)}
    (hkinds : ∀ kind x, (kind, x) ∈ fields → kind = .flagBit ∨ kind = .offset)
    (hbit : name ∈ ["BRBS", "BRBC"] → ∀ b, (.flagBit, b) ∈ fields → b < 16) :
    Admits c name fields := by
  have hstack : name ∉ ["PUSH", "CALL"] ∧ name ∉ ["POP", "RET"] := by
    have all : ∀ name ∈ relativeMnemonics, name ∉ ["PUSH", "CALL"] ∧ name ∉ ["POP", "RET"] := by
      decide
    exact all name hname
  have hset : name ∈ ["BSET", "BCLR", "BRBS", "BRBC"] → name ∈ ["BRBS", "BRBC"] := by
    have all : ∀ name ∈ relativeMnemonics,
        name ∈ ["BSET", "BCLR", "BRBS", "BRBC"] → name ∈ ["BRBS", "BRBC"] := by decide
    exact all name hname
  have hother {kind : OperandKind} {x : Nat} (h : (kind, x) ∈ fields) (hflag : kind ≠ .flagBit)
      (hoffset : kind ≠ .offset) : False := (hkinds kind x h).elim hflag hoffset
  exact {
    register := fun kind x h hregister => by
      rcases hkinds kind x h with rfl | rfl <;> cases hregister
    pointer := fun p h => (hother h nofun nofun).elim
    indirect := fun _ p h => (hother h nofun nofun).elim
    direct := fun _ a h => (hother h nofun nofun).elim
    push := fun h => absurd h hstack.1
    pop := fun h => absurd h hstack.2
    pin := fun _ b h => (hother h nofun nofun).elim
    statusBit := fun h => hbit (hset h)
    registerBit := fun _ b h => (hother h nofun nofun).elim
    io := fun _ a h => (hother h nofun nofun).elim }

section

variable {cells : List Nat}
  (hc : c.Conforms instructionSet c.config) (hrow : row ∈ rows)
  (hencode : ∃ operands, row.encode c.width operands = .ok cells)
  (hholds : c.Holds c.storage.ip cells)

include hc hrow hencode hholds

/-- What was encoded and stands at the instruction pointer is what is fetched there. -/
theorem rowAt?_of_holds :
    c.rowAt? c.storage.ip = some row ∧ c.storage.ip + row.size ≤ c.program.size := by
  obtain ⟨operands, hencode⟩ := hencode
  have hmem : row ∈ c.instructions.table.rows := hc.instructions ▸ hrow
  obtain ⟨hformed, rfl⟩ := InstructionSet.written_formed hmem hencode
  obtain ⟨row', hat, hsize, heq⟩ := Chip.fetch_ok_iff.1 (hholds.fetch hformed)
  obtain rfl : row = row' := congrArg Decoded.instruction heq
  exact ⟨hat, hsize⟩

theorem ready_of_taken (htaken : Taken c row) : Ready c := by
  obtain ⟨-, hoperands⟩ := relative_rows row hrow htaken.mem
  obtain ⟨hat, hsize⟩ := rowAt?_of_holds hc hrow hencode hholds
  obtain ⟨cell, hcell, hget⟩ := (rowAt?_eq_some_iff hc.instructions).1 hat
  have hle : cell ≤ 0x2E := Nat.le_of_lt_succ (List.getElem?_eq_some_iff.1 hget).1
  refine ⟨cell, row, hcell, hle, hget, hsize, admits_relative htaken.mem ?_ ?_⟩
  · intro kind x hx
    have hkind : kind ∈ row.operands := (List.of_mem_zip hx).1
    have all : ∀ kinds ∈ [[OperandKind.flagBit, .offset], [.offset]], ∀ kind ∈ kinds,
        kind = .flagBit ∨ kind = .offset := by decide
    exact all _ hoperands kind hkind
  · intro hname b hb
    have hcell := operand?_cellAt hrow hsize (bit_operand row hrow hname)
    cases hcell.symm.trans ((operand?_iff hrow hsize).2 hb)
    exact htaken.bit_lt hname

end

theorem natCast_relative (c : Chip) (offset : Int) :
    (relative c offset : Int) = (c.storage.ip + offset) % 2 ^ c.config.bits :=
  Int.toNat_of_nonneg (Int.emod_nonneg _ (Int.ne_of_gt (Int.pow_pos (by decide))))

/-- The offset that the assembler put in the last cell is the one that is read from it. -/
theorem nextAddress_of_taken (hc : c.Conforms instructionSet c.config) (hrow : row ∈ rows)
    (htaken : Taken c row) {offset : Int} (hcell : row.encodeOperand c.width .offset offset =
      .ok (c.cellAt row.operands.length)) : nextAddress c row = relative c offset := by
  obtain ⟨⟨hlow, hhigh⟩, hcell⟩ := Instruction.encodeOperand_offset_ok_iff.1 hcell
  have hform := form_of_control row hrow
  have hpos := row.offsetBits_pos c.width
  have hsigned : Meaning.signed (row.offsetBits c.width)
      (c.cellAt row.operands.length % 2 ^ row.offsetBits c.width) = offset := by
    rw [← TwosComplement.decode_eq_signed hpos, ← hcell, TwosComplement.decode_encode hpos hlow hhigh]
  unfold Taken at htaken
  split at htaken
  next hbrbs =>
    obtain ⟨hop, hoperands⟩ := hform _ (by rw [hbrbs]; rfl)
    rw [Instruction.offsetBits, hop, hoperands] at hsigned
    simp only [nextAddress, hbrbs, htaken.2, if_true]
    exact congrArg (relative c) hsigned
  next hbrbc =>
    obtain ⟨hop, hoperands⟩ := hform _ (by rw [hbrbc]; rfl)
    rw [Instruction.offsetBits, hop, hoperands] at hsigned
    simp only [nextAddress, hbrbc, htaken.2, Bool.false_eq_true, if_false]
    exact congrArg (relative c) hsigned
  next hrjmp =>
    obtain ⟨hop, hoperands⟩ := hform _ (by rw [hrjmp]; rfl)
    rw [Instruction.offsetBits, hop, hoperands] at hcell hsigned
    have hcell : TwosComplement.encode c.width.bits offset = c.cellAt 1 := hcell
    have hsigned : Meaning.signed c.width.bits (c.cellAt 1 % 2 ^ c.width.bits) = offset := hsigned
    have hlt : c.cellAt 1 < 2 ^ c.width.bits := hcell ▸ TwosComplement.encode_lt _ _
    rw [Nat.mod_eq_of_lt hlt] at hsigned
    simp only [nextAddress, hrjmp]
    rw [← Config.bits_of_width? hc.width, hsigned]
  next => exact htaken.elim

/-- A relative branch lands where its line of assembly says. -/
theorem lands_of_taken (hc : c.Conforms instructionSet c.config) (hrow : row ∈ rows)
    {operands : List Int} {cells : List Nat} {offset : Int}
    (hencode : row.encode c.width operands = .ok cells) (hoffset : operands.getLast? = some offset)
    (hholds : c.Holds c.storage.ip cells) (htaken : Taken c row) :
    ∃ flow, c.cycle.1 = .ok flow ∧
      (c.cycle.2.storage.ip : Int) = (c.storage.ip + offset) % 2 ^ c.config.bits := by
  obtain ⟨himplied, hoperands⟩ := relative_rows row hrow htaken.mem
  have hkind : row.operands.getLast? = some .offset := by
    have all : ∀ kinds ∈ [[OperandKind.flagBit, .offset], [.offset]],
        kinds.getLast? = some .offset := by decide
    exact all _ hoperands
  obtain ⟨cell, hcell, hlast⟩ := Instruction.last_of_encode himplied hencode hkind hoffset
  rw [← hholds.cellAt hcell] at hlast
  obtain ⟨flow, hflow⟩ := (exists_cycle_ok_iff_ready hc).2
    (ready_of_taken hc hrow ⟨_, hencode⟩ hholds htaken)
  obtain ⟨row', plan, hat, hx⟩ := exists_executes hc hflow
  cases (rowAt?_of_holds hc hrow ⟨_, hencode⟩ hholds).1.symm.trans hat
  refine ⟨flow, hflow, ?_⟩
  rw [hx.ip_eq_nextAddress hc, nextAddress_of_taken hc hrow htaken hlast]
  exact natCast_relative c offset

/-- After a successful cycle a chip goes on where the law says. The cells of a line of assembly stand
where they were loaded; a relative branch among them that is taken is executed without fail, and lands
as far from its address as its offset says. -/
theorem next_instruction (h : Chip.Reachable instructionSet c) :
    (∀ flow, c.cycle.1 = .ok flow →
      ∃ row, c.rowAt? c.storage.ip = some row ∧ Follows c c.cycle.2 row) ∧
    ∀ line row cells offset, instructionSet.table.lookup line.mnemonic = .ok row →
      instructionSet.encode c.width line = .ok cells → line.operands.getLast? = some offset →
      (∀ address loaded, c.loadProgram address cells = .ok loaded → loaded.Holds address cells) ∧
      (c.Holds c.storage.ip cells → Taken c row → ∃ flow, c.cycle.1 = .ok flow ∧
        (c.cycle.2.storage.ip : Int) = (c.storage.ip + offset) % 2 ^ c.config.bits) := by
  have hc := h.conforms
  constructor
  · intro flow hcycle
    obtain ⟨row, plan, hat, hx⟩ := exists_executes hc hcycle
    exact ⟨row, hat, hx.follows hc⟩
  · intro line row cells offset hlookup hencode hoffset
    rw [InstructionSet.encode, hlookup] at hencode
    have hencode : row.encode c.width line.operands = .ok cells := hencode
    constructor
    · intro address loaded hload
      exact Chip.holds_of_loadProgram hc (Instruction.lt_of_encode hencode) hload
    · intro hholds htaken
      exact lands_of_taken hc (InstructionTable.mem_of_lookup hlookup) hencode hoffset hholds htaken

/-- A branch near the start of memory to an address before the first, which is one near the end of the
address space, far behind the end of the memory. -/
theorem next_instruction_backwards :
    let config : Config := { Config.m1047 with registers := 1, ram := 1, rom := 5, mapped := 0 }
    let c := Chip.blank instructionSet config .w8 .halt
    let loaded := c.perform (.loadProgram 2 [0x29, 2, 0x7C])
    let there := loaded.perform (.setInstructionPointer 2)
    instructionSet.encode c.width ⟨"brbc", [2, -4]⟩ = .ok [0x29, 2, 0x7C] ∧
      there.cycle.2.storage.ip = 0xFE ∧
      (∃ flow, there.cycle.1 = .ok flow ∧ (there.cycle.2.storage.ip : Int) = (2 + -4) % 2 ^ 8) ∧
      ∃ row, there.rowAt? 2 = some row ∧ Follows there there.cycle.2 row := by
  intro config c loaded there
  have hnew : Chip.new instructionSet config .halt = .ok c := rfl
  have hc : Chip.Reachable instructionSet c := .new hnew
  have hthere : Chip.Reachable instructionSet there := .perform _ (.perform _ hc)
  let row : Instruction := ⟨"BRBC", 0x29, .branchIfClear, [.flagBit, .offset], [], none,
    "Branch if status bit s is clear"⟩
  have hlookup : instructionSet.table.lookup "brbc" = .ok row := by rfl
  have hencode : instructionSet.encode c.width ⟨"brbc", [2, -4]⟩ = .ok [0x29, 2, 0x7C] := by
    rw [InstructionSet.encode, hlookup]
    change row.encode .w8 [2, -4] = _
    unfold row
    rfl
  have hload : c.loadProgram 2 [0x29, 2, 0x7C] = .ok loaded := by rfl
  have hholds : loaded.Holds 2 [0x29, 2, 0x7C] :=
    ((next_instruction hc).2 _ _ _ _ hlookup hencode rfl).1 2 loaded hload
  have hclear : there.cellAt 1 < 16 ∧ there.storage.status.bit (there.cellAt 1) = false := by
    decide +kernel
  have htaken : Taken there row := hclear
  obtain ⟨flow, hflow, hip⟩ :=
    ((next_instruction hthere).2 _ _ _ _ hlookup hencode rfl).2 hholds htaken
  have hend : there.cycle.2.storage.ip = 0xFE := by decide +kernel
  exact ⟨hencode, hend, ⟨flow, hflow, hip⟩, (next_instruction hthere).1 flow hflow⟩

end Microcontroller.M1047
