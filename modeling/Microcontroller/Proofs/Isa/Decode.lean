import Microcontroller.Isa.Decode
import Microcontroller.Proofs.Isa.Encode
/-!
# What is read from cells

An instruction is read from a program exactly where its cells stand: the opcode of a row, and after it
a cell for each operand of the row. As a table has no opcode twice, these cells leave no choice of the
row, and what stands behind them makes no difference.
-/

namespace Microcontroller

theorem InstructionTable.decode?_eq_some_iff {t : InstructionTable} {opcode : Byte}
    {row : Instruction} : t.decode? opcode = some row ↔ row ∈ t.rows ∧ row.opcode = opcode :=
  find?_key_iff t.opcodes

namespace Decoded

/-- The cells of an instruction. -/
def cells (d : Decoded) : List Nat := d.instruction.opcode.toNat :: d.operands

/-- An instruction of the table, in words of this width, with a cell for each of its operands. -/
structure Formed (set : InstructionSet) (w : Width) (d : Decoded) : Prop where
  row : d.instruction ∈ set.table.rows
  width : d.width = w
  length : d.operands.length = d.instruction.operands.length

theorem Formed.length_cells {set : InstructionSet} {w : Width} {d : Decoded} (h : d.Formed set w) :
    d.cells.length = d.size := by
  rw [cells, List.length_cons, h.length, size, Instruction.size, Nat.add_comm]

end Decoded

/-- These cells stand in a program, the first of them at the address. -/
def Stands (program : Array Nat) (address : Nat) (cells : List Nat) : Prop :=
  ∀ k x, cells[k]? = some x → program[address + k]? = some x

theorem Stands.size_le {program : Array Nat} {address x : Nat} {cells : List Nat}
    (h : Stands program address (x :: cells)) : address + (cells.length + 1) ≤ program.size := by
  have hlast : (x :: cells)[cells.length]? = some ((x :: cells)[cells.length]) :=
    List.getElem?_eq_getElem _
  obtain ⟨hlt, -⟩ := Array.getElem?_eq_some_iff.1 (h _ _ hlast)
  omega

theorem stands_toArray_iff {cells program : List Nat} :
    Stands program.toArray 0 cells ↔ cells <+: program := by
  rw [List.prefix_iff_getElem?]
  constructor
  · intro h k hk
    have hstands := h k _ (List.getElem?_eq_getElem hk)
    rwa [Nat.zero_add, List.getElem?_toArray] at hstands
  · intro h k x hk
    obtain ⟨hlt, rfl⟩ := List.getElem?_eq_some_iff.1 hk
    rw [Nat.zero_add, List.getElem?_toArray]
    exact h k hlt

namespace InstructionSet

variable {set : InstructionSet} {w : Width} {program : Array Nat} {address : Nat} {d : Decoded}

theorem decodeAt_ok (h : set.decodeAt w program address = .ok d) :
    d.Formed set w ∧ Stands program address d.cells := by
  rw [decodeAt] at h
  split at h
  · cases h
  next first hfirst =>
  split at h
  case isFalse => cases h
  next hbyte =>
  dsimp only at h
  split at h
  · cases h
  next row hrow =>
  split at h <;> cases h
  next hsize =>
  obtain ⟨hmem, hopcode⟩ := InstructionTable.decode?_eq_some_iff.1 hrow
  have htoNat : row.opcode.toNat = first := by
    rw [hopcode, BitVec.toNat_ofNat, Nat.mod_eq_of_lt hbyte]
  have hlength : (program.extract (address + 1) (address + row.size)).size = row.operands.length := by
    rw [Array.size_extract, Nat.min_eq_left hsize, Instruction.size]
    omega
  refine ⟨⟨hmem, rfl, Array.length_toList.trans hlength⟩, fun k x hk => ?_⟩
  cases k with
  | zero =>
    cases hk
    rw [Nat.add_zero, hfirst, htoNat]
  | succ k =>
    have hoperand : (program.extract (address + 1) (address + row.size))[k]? = some x := by
      rw [← Array.getElem?_toList]
      exact hk
    rw [Array.getElem?_extract] at hoperand
    split at hoperand
    · rwa [Nat.add_right_comm, Nat.add_assoc] at hoperand
    · cases hoperand

theorem decodeAt_of_stands (hd : d.Formed set w) (h : Stands program address d.cells) :
    set.decodeAt w program address = .ok d := by
  obtain ⟨row, operands, width⟩ := d
  obtain ⟨hrow, rfl, hlength⟩ := hd
  change operands.length = row.operands.length at hlength
  have hsize : address + row.size ≤ program.size := by
    have hle := h.size_le
    rwa [hlength, Nat.add_comm row.operands.length] at hle
  have hfirst : program[address]? = some row.opcode.toNat := h 0 _ rfl
  have hdecode : set.table.decode? (BitVec.ofNat 8 row.opcode.toNat) = some row := by
    rw [BitVec.ofNat_toNat, BitVec.setWidth_eq]
    exact InstructionTable.decode?_eq_some_iff.2 ⟨hrow, rfl⟩
  have hoperands : (program.extract (address + 1) (address + row.size)).toList = operands := by
    have hcount : min (address + row.size) program.size - (address + 1) = operands.length := by
      rw [Nat.min_eq_left hsize, hlength, Instruction.size]
      omega
    refine List.ext_getElem? fun k => ?_
    rw [Array.getElem?_toList, Array.getElem?_extract, hcount]
    split
    next hk =>
      rw [Nat.add_assoc, Nat.add_comm 1, List.getElem?_eq_getElem hk]
      exact h (k + 1) _ (List.getElem?_eq_getElem hk)
    next hk => exact (List.getElem?_eq_none (Nat.le_of_not_lt hk)).symm
  rw [decodeAt, hfirst]
  dsimp only
  rw [if_pos row.opcode.isLt, hdecode]
  dsimp only
  rw [if_pos hsize, hoperands]

/-- An instruction is read where its cells stand. -/
theorem decodeAt_ok_iff : set.decodeAt w program address = .ok d ↔
    d.Formed set w ∧ Stands program address d.cells :=
  ⟨decodeAt_ok, fun h => decodeAt_of_stands h.1 h.2⟩

theorem decode_ok_iff {cells : List Nat} :
    set.decode w cells = .ok d ↔ d.Formed set w ∧ d.cells <+: cells := by
  rw [decode, decodeAt_ok_iff, stands_toArray_iff]

/-! ### Every outcome -/

/-- To decode at an address is to decode the cells from the address on. -/
theorem decodeAt_eq_decode (set : InstructionSet) (w : Width) (program : Array Nat)
    (address : Nat) : set.decodeAt w program address = set.decode w (program.toList.drop address) := by
  have hfirst : (program.toList.drop address).toArray[0]? = program[address]? := by
    rw [List.getElem?_toArray, List.getElem?_drop, Nat.add_zero, Array.getElem?_toList]
  have hsize : (program.toList.drop address).toArray.size = program.size - address := by
    rw [List.size_toArray, List.length_drop, Array.length_toList]
  rw [decode, decodeAt, decodeAt, hfirst]
  cases hcell : program[address]? with
  | none => rfl
  | some first =>
    obtain ⟨hlt, -⟩ := Array.getElem?_eq_some_iff.1 hcell
    dsimp only
    split
    next =>
      cases set.table.decode? (BitVec.ofNat 8 first) with
      | none => rfl
      | some row =>
        dsimp only
        have hends : address + row.size ≤ program.size ↔
            0 + row.size ≤ (program.toList.drop address).toArray.size := by
          rw [hsize]
          omega
        have hoperands : (program.extract (address + 1) (address + row.size)).toList =
            ((program.toList.drop address).toArray.extract (0 + 1) (0 + row.size)).toList := by
          simp only [Array.toList_extract, List.extract_eq_take_drop, List.drop_drop]
          congr 1
          omega
        simp only [hends, hoperands, hsize, Nat.sub_zero]
    next => rfl

theorem decode_cons (set : InstructionSet) (w : Width) (first : Nat) (rest : List Nat) :
    set.decode w (first :: rest) =
      if first < 256 then
        match set.table.decode? (BitVec.ofNat 8 first) with
        | none => .error (.unknownOpcode (BitVec.ofNat 8 first))
        | some row =>
          if row.operands.length ≤ rest.length then
            .ok ⟨row, rest.take row.operands.length, w⟩
          else .error (.truncated row.mnemonic row.size (rest.length + 1))
      else .error (.invalidCell first) := by
  have hfirst : (first :: rest).toArray[0]? = some first := rfl
  rw [decode, decodeAt, hfirst]
  dsimp only
  split
  next =>
    cases set.table.decode? (BitVec.ofNat 8 first) with
    | none => rfl
    | some row => simp [Instruction.size, Nat.add_comm 1]
  next => rfl

end InstructionSet

end Microcontroller
