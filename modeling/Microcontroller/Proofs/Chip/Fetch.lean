import Microcontroller.Chip.Basic
/-!
# What a chip fetches

The instruction at an address is settled by two questions: which row of the table has the cell there
as its opcode, and whether program memory goes on far enough for the operands of that row. The four
answers are the four outcomes of a fetch, and there is no other.
-/

namespace Microcontroller

namespace InstructionTable

/-- The row whose opcode a cell is. -/
def rowOf? (t : InstructionTable) (cell : Nat) : Option Instruction :=
  t.rows.find? fun row => row.opcode.toNat == cell

theorem decode?_eq_rowOf? (t : InstructionTable) {cell : Nat} (h : cell < 256) :
    t.decode? (BitVec.ofNat 8 cell) = t.rowOf? cell := by
  rw [decode?, rowOf?]
  congr 1
  funext row
  rw [Bool.eq_iff_iff, beq_iff_eq, beq_iff_eq, ← BitVec.toNat_inj, BitVec.toNat_ofNat,
    Nat.mod_eq_of_lt h]

theorem opcode_of_rowOf? {t : InstructionTable} {cell : Nat} {row : Instruction}
    (h : t.rowOf? cell = some row) : row ∈ t.rows ∧ row.opcode.toNat = cell :=
  ⟨List.mem_of_find?_eq_some h, beq_iff_eq.1 (List.find?_some h :)⟩

end InstructionTable

namespace Chip

def program (c : Chip) : Array Nat := c.storage.memory.program.raw

/-- The cell `k` places after the instruction pointer. -/
def cellAt (c : Chip) (k : Nat) : Nat := c.program.getD (c.storage.ip + k) 0

/-- The word in a register. -/
def word (c : Chip) (i : Nat) : Nat := c.storage.registers.raw.getD i 0

/-- The row of the instruction at an address; none where program memory has ended, or where the cell
is not an opcode of the table. -/
def rowAt? (c : Chip) (address : Nat) : Option Instruction :=
  c.program[address]?.bind c.instructions.table.rowOf?

/-- The operand cells that follow the opcode at an address. -/
def operandsAt (c : Chip) (address : Nat) (row : Instruction) : List Nat :=
  (c.program.extract (address + 1) (address + row.size)).toList

theorem length_operandsAt (c : Chip) {address : Nat} {row : Instruction}
    (h : address + row.size ≤ c.program.size) :
    (c.operandsAt address row).length = row.operands.length := by
  rw [operandsAt, Array.length_toList, Array.size_extract, Nat.min_eq_left h]
  rw [Instruction.size]
  omega

theorem operandsAt_subset {c : Chip} {address cell : Nat} {row : Instruction}
    (h : cell ∈ c.operandsAt address row) : cell ∈ c.program := by
  obtain ⟨i, hi⟩ := Array.mem_iff_getElem?.1 (Array.mem_toList_iff.1 h)
  rw [Array.getElem?_extract] at hi
  split at hi
  · exact Array.mem_of_getElem? hi
  · cases hi

theorem operandsAt_getElem? (c : Chip) {address k : Nat} {row : Instruction}
    (h : address + row.size ≤ c.program.size) (hk : k < row.operands.length) :
    (c.operandsAt address row)[k]? = c.program[address + (k + 1)]? := by
  rw [operandsAt, Array.getElem?_toList, Array.getElem?_extract, Nat.min_eq_left h, if_pos,
    Nat.add_right_comm, Nat.add_assoc]
  rw [Instruction.size]
  omega

variable {c : Chip} {address cell : Nat} {row : Instruction}

theorem fetch_outside (h : c.program.size ≤ address) :
    c.fetch address = .error
      (.bounds address c.storage.memory.programRegion address c.program.size, 1) := by
  have hnone : c.storage.memory.program.raw[address]? = none := Array.getElem?_eq_none h
  simp only [fetch, InstructionSet.decodeAt, hnone]
  rfl

theorem fetch_unknown (hcell : c.program[address]? = some cell) (hrow : c.rowAt? address = none) :
    c.fetch address = .error (.illegalInstruction address cell, 1) := by
  have hfirst : c.storage.memory.program.raw[address]? = some cell := hcell
  rw [rowAt?, hcell, Option.bind_some] at hrow
  simp only [fetch, InstructionSet.decodeAt, hfirst]
  by_cases hbyte : cell < 256
  · rw [if_pos hbyte, InstructionTable.decode?_eq_rowOf? _ hbyte, hrow]
    simp only [BitVec.toNat_ofNat, Nat.mod_eq_of_lt hbyte]
  · rw [if_neg hbyte]

theorem decodeAt_of_row (hrow : c.rowAt? address = some row) :
    c.instructions.decodeAt c.width c.program address =
      if address + row.size ≤ c.program.size then
        .ok ⟨row, c.operandsAt address row, c.width⟩
      else .error (.truncated row.mnemonic row.size (c.program.size - address)) := by
  obtain ⟨cell, hcell, hrow⟩ := Option.bind_eq_some_iff.1 hrow
  have hbyte : cell < 256 := (InstructionTable.opcode_of_rowOf? hrow).2 ▸ row.opcode.isLt
  simp only [InstructionSet.decodeAt, hcell, if_pos hbyte, InstructionTable.decode?_eq_rowOf? _ hbyte,
    hrow, operandsAt]

theorem fetch_truncated (hrow : c.rowAt? address = some row)
    (h : c.program.size < address + row.size) :
    c.fetch address = .error (.bounds address c.storage.memory.programRegion c.program.size
      c.program.size, row.size) := by
  obtain ⟨cell, hcell, -⟩ := Option.bind_eq_some_iff.1 hrow
  have hlt := (Array.getElem?_eq_some_iff.1 hcell).1
  have hdecode := decodeAt_of_row hrow
  rw [if_neg (Nat.not_le.2 h)] at hdecode
  have hend : address + (c.program.size - address) = c.program.size := by omega
  simp only [fetch]
  rw [show c.storage.memory.program.raw = c.program from rfl, hdecode]
  simp only [hend]
  rfl

theorem fetch_row (hrow : c.rowAt? address = some row) (h : address + row.size ≤ c.program.size) :
    c.fetch address = .ok ⟨row, c.operandsAt address row, c.width⟩ := by
  have hdecode := decodeAt_of_row hrow
  rw [if_pos h] at hdecode
  simp only [fetch]
  rw [show c.storage.memory.program.raw = c.program from rfl, hdecode]

theorem fetch_cases (c : Chip) (address : Nat) :
    (c.program[address]? = none ∧ c.fetch address = .error
      (.bounds address c.storage.memory.programRegion address c.program.size, 1)) ∨
    (∃ cell, c.program[address]? = some cell ∧ c.rowAt? address = none ∧
      c.fetch address = .error (.illegalInstruction address cell, 1)) ∨
    (∃ row, c.rowAt? address = some row ∧ c.program.size < address + row.size ∧
      c.fetch address = .error (.bounds address c.storage.memory.programRegion c.program.size
        c.program.size, row.size)) ∨
    ∃ row, c.rowAt? address = some row ∧ address + row.size ≤ c.program.size ∧
      c.fetch address = .ok ⟨row, c.operandsAt address row, c.width⟩ := by
  cases hcell : c.program[address]? with
  | none => exact .inl ⟨rfl, fetch_outside (Array.getElem?_eq_none_iff.1 hcell)⟩
  | some cell =>
    cases hrow : c.rowAt? address with
    | none => exact .inr (.inl ⟨cell, rfl, rfl, fetch_unknown hcell hrow⟩)
    | some row =>
      by_cases hsize : address + row.size ≤ c.program.size
      · exact .inr (.inr (.inr ⟨row, rfl, hsize, fetch_row hrow hsize⟩))
      · have hend := Nat.lt_of_not_le hsize
        exact .inr (.inr (.inl ⟨row, rfl, hend, fetch_truncated hrow hend⟩))

/-- A fetch succeeds exactly where there is a row with all of its operands. -/
theorem fetch_ok_iff {d : Decoded} :
    c.fetch address = .ok d ↔ ∃ row, c.rowAt? address = some row ∧
      address + row.size ≤ c.program.size ∧ d = ⟨row, c.operandsAt address row, c.width⟩ := by
  constructor
  · intro h
    rcases fetch_cases c address with ⟨-, hf⟩ | ⟨_, -, -, hf⟩ | ⟨_, -, -, hf⟩ | ⟨row, hrow, hsize, hf⟩
    all_goals cases hf.symm.trans h
    exact ⟨row, hrow, hsize, rfl⟩
  · intro h
    obtain ⟨row, hrow, hsize, rfl⟩ := h
    exact fetch_row hrow hsize

/-- After a failed fetch the skip policy goes past the row, or past the one cell if there is no
row. -/
theorem size_of_fetch_error {fault : Fault} {size : Nat} (h : c.fetch address = .error (fault, size)) :
    size = ((c.rowAt? address).map Instruction.size).getD 1 := by
  rcases fetch_cases c address with ⟨hcell, hf⟩ | ⟨_, -, hrow, hf⟩ | ⟨row, hrow, -, hf⟩ | ⟨_, -, -, hf⟩
  all_goals cases hf.symm.trans h
  · rw [rowAt?, hcell]
    rfl
  · rw [hrow]
    rfl
  · rw [hrow]
    rfl

end Chip

end Microcontroller
