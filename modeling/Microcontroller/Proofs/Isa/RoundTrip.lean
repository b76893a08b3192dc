import Mathlib.Data.List.Forall2
import Microcontroller.Isa.Assembly
import Microcontroller.Isa.M1047
import Microcontroller.Proofs.Isa.Decode
import Microcontroller.Proofs.Word.TwosComplement
/-!
# Between lines of assembly and cells

A line of assembly that is written as cells is read back from them: its row, its offsets as they
were, and its other operands cut down to words. The other way round, the cells of an instruction are
written again from the line that it stands for. There is one thing that the line does not know of: a
conditional branch reads only the low seven bits of its offset cell, and a cell with others set is
written without them.
-/

namespace Microcontroller

/-! ### Reading what was written -/

namespace Instruction

variable {i : Instruction} {w : Width}

/-- What is read from the cell of an operand: an offset is as it was, and anything else is cut down to
a word. -/
def Reads (i : Instruction) (w : Width) (field : OperandKind × Int) (cell : Nat) : Prop :=
  if field.1 = .offset then i.offset w cell = field.2 else (cell : Int) = field.2 % 2 ^ w.bits

/-- What is wrong with the operands of a line that is not written: their number, or an offset. -/
theorem not_admitted_iff {operands : List Int} :
    ¬ (i.TakesCount operands.length ∧ ∀ field ∈ i.fields operands, i.HasRoom w field) ↔
      ¬ i.TakesCount operands.length ∨ ∃ value, (.offset, value) ∈ i.fields operands ∧
        ¬ (-2 ^ (i.offsetBits w - 1) ≤ value ∧ value ≤ 2 ^ (i.offsetBits w - 1) - 1) := by
  have hroom : (∀ field ∈ i.fields operands, i.HasRoom w field) ↔
      ∀ value, (.offset, value) ∈ i.fields operands →
        -2 ^ (i.offsetBits w - 1) ≤ value ∧ value ≤ 2 ^ (i.offsetBits w - 1) - 1 := by
    simp only [Int.le_sub_one_iff]
    constructor
    · exact fun h value hvalue => h _ hvalue rfl
    · rintro h ⟨kind, value⟩ hfield rfl
      exact h value hfield
  rw [hroom, not_and_or, not_forall]
  simp only [Classical.not_imp]

theorem reads_fieldCell {field : OperandKind × Int} (h : i.HasRoom w field) :
    i.Reads w field (i.fieldCell w field) := by
  rw [Reads, fieldCell]
  by_cases hoffset : field.1 = .offset
  · obtain ⟨hlow, hhigh⟩ := h hoffset
    rw [if_pos hoffset, if_pos hoffset]
    exact TwosComplement.decode_encode (i.offsetBits_pos w) hlow hhigh
  · rw [if_neg hoffset, if_neg hoffset]
    exact w.natCast_wrap field.2

/-- A line of assembly in its cells. -/
def written (i : Instruction) (w : Width) (operands : List Int) : Decoded :=
  ⟨i, (i.fields operands).map (i.fieldCell w), w⟩

theorem reads_written {operands : List Int} (h : ∀ field ∈ i.fields operands, i.HasRoom w field) :
    List.Forall₂ (i.Reads w) (i.fields operands) (i.written w operands).operands :=
  List.forall₂_map_right_iff.2
    (List.forall₂_same.2 fun field hfield => reads_fieldCell (h field hfield))

end Instruction

namespace InstructionSet

variable {set : InstructionSet} {w : Width} {line : Line} {row : Instruction}
  {operands : List Int} {cells : List Nat}

theorem encode_ok_iff : set.encode w line = .ok cells ↔ ∃ row, (row ∈ set.table.rows ∧
    Instruction.key row.mnemonic = Instruction.key line.mnemonic) ∧
      row.encode w line.operands = .ok cells := by
  simp only [encode, bind_ok_iff, InstructionTable.lookup_ok_iff]

theorem row_unique {row row' : Instruction} {mnemonic : String}
    (hrow : row ∈ set.table.rows ∧ Instruction.key row.mnemonic = Instruction.key mnemonic)
    (hrow' : row' ∈ set.table.rows ∧ Instruction.key row'.mnemonic = Instruction.key mnemonic) :
    row = row' :=
  Except.ok.inj <|
    (InstructionTable.lookup_ok_iff.2 hrow).symm.trans (InstructionTable.lookup_ok_iff.2 hrow')

theorem exists_encode_iff : (∃ cells, set.encode w line = .ok cells) ↔ ∃ row,
    (row ∈ set.table.rows ∧ Instruction.key row.mnemonic = Instruction.key line.mnemonic) ∧
      row.TakesCount line.operands.length ∧
        ∀ field ∈ row.fields line.operands, row.HasRoom w field := by
  simp only [encode_ok_iff, Instruction.encode_ok_iff]
  constructor
  · rintro ⟨_, row, hrow, hcount, hroom, -⟩
    exact ⟨row, hrow, hcount, hroom⟩
  · rintro ⟨row, hrow, hcount, hroom⟩
    exact ⟨_, row, hrow, hcount, hroom, rfl⟩

/-- A line is refused if no row has its mnemonic, or for its operands. -/
theorem encode_error_iff : (∃ e, set.encode w line = .error e) ↔
    (∀ row ∈ set.table.rows, Instruction.key row.mnemonic ≠ Instruction.key line.mnemonic) ∨
      ∃ row ∈ set.table.rows, Instruction.key row.mnemonic = Instruction.key line.mnemonic ∧
        ¬ (row.TakesCount line.operands.length ∧
          ∀ field ∈ row.fields line.operands, row.HasRoom w field) := by
  rw [exists_error_iff, exists_encode_iff]
  constructor
  · intro h
    by_cases hrow : ∃ row ∈ set.table.rows,
        Instruction.key row.mnemonic = Instruction.key line.mnemonic
    · obtain ⟨row, hmem, hkey⟩ := hrow
      exact .inr ⟨row, hmem, hkey, fun hgood => h ⟨row, ⟨hmem, hkey⟩, hgood⟩⟩
    · exact .inl fun row hmem hkey => hrow ⟨row, hmem, hkey⟩
  · rintro (hnone | ⟨row, hmem, hkey, hbad⟩) ⟨row', hrow', hgood⟩
    · exact hnone row' hrow'.1 hrow'.2
    · exact hbad (row_unique hrow' ⟨hmem, hkey⟩ ▸ hgood)

/-- The cells of a line are those of an instruction of the table. -/
theorem written_formed (hrow : row ∈ set.table.rows) (h : row.encode w operands = .ok cells) :
    (row.written w operands).Formed set w ∧ (row.written w operands).cells = cells := by
  obtain ⟨hcount, -, hcells⟩ := Instruction.encode_ok_iff.1 h
  exact ⟨⟨hrow, rfl, (List.length_map _).trans (Instruction.length_fields hcount)⟩, hcells⟩

end InstructionSet

/-! ### Writing what was read -/

namespace Decoded

/-- The operand that a cell stands for. -/
def value (d : Decoded) (field : OperandKind × Nat) : Int :=
  if field.1 = .offset then d.instruction.offset d.width field.2 else field.2

/-- The line of assembly that says what an instruction does. -/
def line (d : Decoded) : Line := ⟨d.instruction.mnemonic, d.fields.map d.value⟩

/-- What is left of a cell when it is written again: of the offset of a conditional branch, its low
seven bits, and of any other cell, the whole. -/
def keptPart (d : Decoded) (field : OperandKind × Nat) : Nat :=
  if field.1 = .offset ∧ (d.instruction.operation = .branchIfSet ∨
      d.instruction.operation = .branchIfClear) then field.2 % 2 ^ 7
  else field.2

/-- An instruction with its cells as the assembler writes them. -/
def canonical (d : Decoded) : Decoded := { d with operands := d.fields.map d.keptPart }

variable {set : InstructionSet} {w : Width} {d : Decoded}

theorem offsetBits_eq (d : Decoded) : d.instruction.offsetBits d.width =
    if d.instruction.operation = .branchIfSet ∨ d.instruction.operation = .branchIfClear then 7
    else d.width.bits := by
  cases hop : d.instruction.operation <;> simp only [Instruction.offsetBits, hop, reduceCtorEq,
    or_false, or_true, if_true, if_false]

/-- What is kept of a cell is the cell that its operand is written in. -/
theorem fieldCell_value {field : OperandKind × Nat} (hlt : field.2 < d.width.capacity) :
    d.instruction.fieldCell d.width (field.1, d.value field) = d.keptPart field := by
  rw [Instruction.fieldCell, value, keptPart]
  by_cases hoffset : field.1 = .offset
  · simp only [hoffset, if_true, true_and, Instruction.offset, TwosComplement.encode_decode,
      offsetBits_eq]
    split
    · rfl
    · exact Nat.mod_eq_of_lt hlt
  · simp only [hoffset, if_false, false_and, Width.wrap_natCast, Nat.mod_eq_of_lt hlt]

theorem hasRoom_value (d : Decoded) (field : OperandKind × Nat) :
    d.instruction.HasRoom d.width (field.1, d.value field) := by
  intro hoffset
  have hvalue : d.value field = d.instruction.offset d.width field.2 := if_pos hoffset
  dsimp only
  rw [hvalue]
  exact TwosComplement.decode_range (d.instruction.offsetBits_pos d.width) field.2

/-- Nothing that is read as an offset is lost. -/
theorem offset_keptPart (d : Decoded) (cell : Nat) :
    d.instruction.offset d.width (d.keptPart (.offset, cell)) = d.instruction.offset d.width cell := by
  simp only [keptPart, true_and, Instruction.offset]
  split
  next hbranch => rw [offsetBits_eq, if_pos hbranch, TwosComplement.decode_mod]
  next => rfl

theorem Formed.map_fst_fields (h : d.Formed set w) :
    d.fields.map Prod.fst = d.instruction.operands :=
  List.map_fst_zip (Nat.le_of_eq h.length.symm)

theorem Formed.length_fields (h : d.Formed set w) :
    d.fields.length = d.instruction.operands.length := by
  rw [← h.map_fst_fields, List.length_map]

/-- Beside their kinds, operands made from the cells one by one stand where the cells do. -/
theorem Formed.zip_map {α : Type} (h : d.Formed set w) (f : OperandKind × Nat → α) :
    d.instruction.operands.zip (d.fields.map f) = d.fields.map fun field => (field.1, f field) := by
  refine (List.zip_of_prod ?_ ?_).symm
  · rw [List.map_map]
    exact h.map_fst_fields
  · rw [List.map_map]
    rfl

theorem Formed.fields_line (h : d.Formed set w) :
    d.instruction.fields d.line.operands = d.fields.map fun field => (field.1, d.value field) := by
  have hlength : d.line.operands.length = d.instruction.operands.length :=
    (List.length_map _).trans h.length_fields
  rw [Instruction.fields_eq_zip hlength]
  exact h.zip_map d.value

theorem Formed.encode_line (h : d.Formed set w) (hlt : ∀ cell ∈ d.operands, cell < w.capacity) :
    set.encode w d.line = .ok d.canonical.cells := by
  have hkept : ∀ field ∈ d.fields,
      d.instruction.fieldCell w (field.1, d.value field) = d.keptPart field := by
    intro field hfield
    rw [← h.width]
    exact fieldCell_value (h.width.symm ▸ hlt _ (List.of_mem_zip hfield).2)
  refine InstructionSet.encode_ok_iff.2 ⟨d.instruction, ⟨h.row, rfl⟩,
    Instruction.encode_ok_iff.2 ⟨.inl ((List.length_map _).trans h.length_fields), ?_, ?_⟩⟩
  · intro field hfield
    rw [h.fields_line] at hfield
    obtain ⟨field, -, rfl⟩ := List.mem_map.1 hfield
    exact h.width ▸ d.hasRoom_value field
  · rw [h.fields_line, List.map_map]
    exact congrArg _ (List.map_congr_left hkept)

theorem Formed.canonical (h : d.Formed set w) : d.canonical.Formed set w :=
  ⟨h.row, h.width, (List.length_map _).trans h.length_fields⟩

theorem Formed.fields_canonical (h : d.Formed set w) :
    d.canonical.fields = d.fields.map fun field => (field.1, d.keptPart field) :=
  h.zip_map d.keptPart

/-! ### What is read again -/

theorem lookup_map {α β γ : Type} [BEq α] [LawfulBEq α] (xs : List (α × β)) (f : α × β → γ) (k : α) :
    (xs.map fun x => (x.1, f x)).lookup k = (xs.lookup k).map fun b => f (k, b) := by
  induction xs with
  | nil => rfl
  | cons x xs ih =>
    obtain ⟨a, b⟩ := x
    rw [List.map_cons, List.lookup_cons, List.lookup_cons]
    cases hk : k == a with
    | false => exact ih
    | true => rw [beq_iff_eq.1 hk]; rfl

theorem Formed.offset?_canonical (h : d.Formed set w) : d.canonical.offset? = d.offset? := by
  rw [offset?, operand?, h.fields_canonical, lookup_map, offset?, operand?, Option.map_map]
  exact Option.map_congr fun cell _ => d.offset_keptPart cell

theorem operandText_keptPart (d : Decoded) (field : OperandKind × Nat) :
    d.canonical.operandText field.1 (d.keptPart field) = d.operandText field.1 field.2 := by
  obtain ⟨kind, cell⟩ := field
  by_cases hoffset : kind = .offset
  · subst hoffset
    exact congrArg Numeral.withSign (d.offset_keptPart cell)
  · have hkept : d.keptPart (kind, cell) = cell := if_neg fun h => hoffset h.1
    rw [hkept]
    rfl

theorem Formed.text_canonical (h : d.Formed set w) : d.canonical.text = d.text := by
  have hempty : d.canonical.operands.isEmpty = d.operands.isEmpty := by
    rw [Bool.eq_iff_iff, List.isEmpty_iff_length_eq_zero, List.isEmpty_iff_length_eq_zero,
      h.canonical.length, h.length]
    rfl
  simp only [text, hempty, h.fields_canonical, List.map_map, Function.comp_def, operandText_keptPart]
  rfl

end Decoded

namespace InstructionSet

/-- The cells that an instruction was read from are written again from the line that it stands for,
but that the offset cell of a conditional branch keeps its low seven bits only; and what is read from
them is the same row, with the same offset and the same text. -/
theorem cells_written_back {set : InstructionSet} {w : Width} {cells : List Nat} {d : Decoded}
    (hcells : ∀ x ∈ cells, x < 2 ^ w.bits) (h : set.decode w cells = .ok d) :
    cells.take d.size = d.instruction.opcode.toNat :: d.operands ∧
    ∃ written, set.encode w ⟨d.instruction.mnemonic, d.fields.map d.value⟩ = .ok written ∧
      written.length = d.size ∧
      written = d.instruction.opcode.toNat :: d.fields.map d.keptPart ∧
      ∃ d', set.decode w written = .ok d' ∧ d'.instruction = d.instruction ∧
        d'.offset? = d.offset? ∧ d'.text = d.text := by
  obtain ⟨hd, hstart⟩ := decode_ok_iff.1 h
  have hlt : ∀ cell ∈ d.operands, cell < w.capacity := fun cell hcell =>
    hcells cell (hstart.subset (List.mem_cons_of_mem _ hcell))
  have hsize (d' : Decoded) (h' : d'.Formed set w) : d'.cells.length = d'.size := by
    rw [Decoded.cells, List.length_cons, h'.length, Decoded.size, Instruction.size, Nat.add_comm]
  refine ⟨?_, d.canonical.cells, hd.encode_line hlt, hsize _ hd.canonical, rfl, d.canonical,
    decode_ok_iff.2 ⟨hd.canonical, List.prefix_rfl⟩, rfl, hd.offset?_canonical, hd.text_canonical⟩
  rw [← hsize d hd]
  exact (List.prefix_iff_eq_take.1 hstart).symm

/-- A branch two cells back, with the top bit of its offset cell set: the bit is lost when the branch
is written again, and it goes two cells back as before. -/
theorem cells_written_back_branch :
    let set := M1047.instructionSet
    let row : Instruction := ⟨"BRBS", 0x28, .branchIfSet, [.flagBit, .offset], [], none,
      "Branch if status bit s is set"⟩
    let d : Decoded := ⟨row, [3, 0xFE], .w8⟩
    set.decode .w8 [0x28, 3, 0xFE, 0x99] = .ok d ∧ (∀ x ∈ [0x28, 3, 0xFE, 0x99], x < 2 ^ Width.w8.bits) ∧
      set.encode .w8 ⟨"BRBS", [3, -2]⟩ = .ok [0x28, 3, 0x7E] ∧
      ∃ d', set.decode .w8 [0x28, 3, 0x7E] = .ok d' ∧ d'.offset? = some (-2) ∧ d'.text = d.text := by
  intro set row d
  have hdecode : set.decode .w8 [0x28, 3, 0xFE, 0x99] = .ok d := by rfl
  have hcells : ∀ x ∈ [0x28, 3, 0xFE, 0x99], x < 2 ^ Width.w8.bits := by decide
  obtain ⟨-, written, hencode, -, hwritten, d', hd', -, hoffset, htext⟩ :=
    cells_written_back hcells hdecode
  have hvalues : d.fields.map d.value = [3, -2] := by decide
  have hkept : written = [0x28, 3, 0x7E] := hwritten.trans (by decide)
  have hback : d.offset? = some (-2) := by decide
  rw [hvalues, hkept] at hencode
  rw [hkept] at hd'
  exact ⟨hdecode, hcells, hencode, d', hd', hoffset.trans hback, htext⟩

end InstructionSet

end Microcontroller
