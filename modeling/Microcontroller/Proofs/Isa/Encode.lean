import Mathlib.Data.List.Nodup
import Microcontroller.Isa.Encode
import Microcontroller.Proofs.Result
import Microcontroller.Proofs.Word.Pattern
/-!
# What the assembler writes

A line of assembly becomes the opcode of its row and one cell for each operand, in the order of the
row. It is refused if no row has its mnemonic, if it has too many operands or too few, or if an
offset is out of range; the operand that may be left out is the default, and then stands in its place
like any other.
-/

namespace Microcontroller

/-! ### Looking for a row -/

/-- Where no key occurs twice, the first entry with a key is the only one. -/
theorem find?_key_iff {α β : Type} [BEq β] [LawfulBEq β] {key : α → β} {xs : List α}
    (h : (xs.map key).Nodup) {k : β} {x : α} :
    xs.find? (key · == k) = some x ↔ x ∈ xs ∧ key x = k := by
  constructor
  · intro hfind
    exact ⟨List.mem_of_find?_eq_some hfind, beq_iff_eq.1 (List.find?_some hfind :)⟩
  · intro ⟨hmem, hkey⟩
    cases hfind : xs.find? (key · == k) with
    | none => exact absurd (beq_iff_eq.2 hkey) (List.find?_eq_none.1 hfind x hmem)
    | some y =>
      have hy : key y = k := beq_iff_eq.1 (List.find?_some hfind :)
      rw [List.inj_on_of_nodup_map h (List.mem_of_find?_eq_some hfind) hmem (hy.trans hkey.symm)]

namespace InstructionTable

variable {t : InstructionTable} {mnemonic : String} {row : Instruction}

theorem lookup_ok_iff : t.lookup mnemonic = .ok row ↔
    row ∈ t.rows ∧ Instruction.key row.mnemonic = Instruction.key mnemonic := by
  rw [← find?_key_iff t.mnemonics, lookup]
  split
  next found hfound => rw [hfound, Except.ok.injEq, Option.some.injEq]
  next hnone => rw [hnone]; exact iff_of_false nofun nofun

theorem mem_of_lookup (h : t.lookup mnemonic = .ok row) : row ∈ t.rows := (lookup_ok_iff.1 h).1

end InstructionTable

namespace Instruction

/-! ### The operands of a line -/

/-- Whether a line may have `n` operands: one for each of the row, or one fewer where the last is an
immediate that has a default. -/
def TakesCount (i : Instruction) (n : Nat) : Prop :=
  n = i.operands.length ∨
    n + 1 = i.operands.length ∧ i.implied.isSome ∧ i.operands.getLast? = some .immediate

/-- The operands of a line beside their kinds. Where the line stops before the last, the default
comes next. -/
def fields (i : Instruction) (operands : List Int) : List (OperandKind × Int) :=
  i.operands.zip (operands ++ i.implied.toList)

/-- An offset lies in the range of its field; any other operand is cut down to fit. -/
def HasRoom (i : Instruction) (w : Width) (field : OperandKind × Int) : Prop :=
  field.1 = .offset →
    -2 ^ (i.offsetBits w - 1) ≤ field.2 ∧ field.2 < 2 ^ (i.offsetBits w - 1)

/-- The cell of an operand that has room. -/
def fieldCell (i : Instruction) (w : Width) (field : OperandKind × Int) : Nat :=
  if field.1 = .offset then TwosComplement.encode (i.offsetBits w) field.2 else w.wrap field.2

variable {i : Instruction} {w : Width} {operands full : List Int} {cells : List Nat}

theorem fields_eq_zip (h : operands.length = i.operands.length) :
    i.fields operands = i.operands.zip operands := by
  have happend : (i.operands ++ []).zip (operands ++ i.implied.toList) =
      i.operands.zip operands ++ [].zip i.implied.toList := List.zip_append h.symm
  rwa [List.append_nil, List.zip_nil_left, List.append_nil] at happend

theorem length_fields (h : i.TakesCount operands.length) :
    (i.fields operands).length = i.operands.length := by
  rw [fields, List.length_zip, List.length_append]
  refine Nat.min_eq_left ?_
  rcases h with h | ⟨h, hsome, -⟩
  · omega
  · obtain ⟨last, hlast⟩ := Option.isSome_iff_exists.1 hsome
    rw [hlast, Option.toList_some, List.length_singleton]
    omega

theorem exists_completeOperands_iff :
    (∃ full, i.completeOperands operands = .ok full) ↔ i.TakesCount operands.length := by
  rw [completeOperands, TakesCount]
  split
  next h => exact iff_of_true ⟨_, rfl⟩ (.inl h)
  next h =>
    rw [or_iff_right h]
    split
    next last hlast =>
      rw [hlast, Option.isSome_some]
      split
      next hcount => exact iff_of_true ⟨_, rfl⟩ ⟨hcount.1, rfl, hcount.2⟩
      next hcount => exact iff_of_false nofun fun h => hcount ⟨h.1, h.2.2⟩
    next hnone =>
      rw [hnone, Option.isSome_none]
      exact iff_of_false nofun nofun

theorem zip_of_completeOperands (h : i.completeOperands operands = .ok full) :
    i.operands.zip full = i.fields operands := by
  rw [completeOperands] at h
  split at h
  next hcount =>
    cases h
    exact (fields_eq_zip hcount).symm
  next =>
    split at h
    next last hlast =>
      split at h <;> cases h
      rw [fields, hlast, Option.toList_some]
    next => cases h

/-! ### One operand -/

theorem offsetBits_pos (i : Instruction) (w : Width) : 0 < i.offsetBits w := by
  rw [offsetBits]
  cases w <;> split <;> decide

theorem offsetBits_le (i : Instruction) (w : Width) : i.offsetBits w ≤ w.bits := by
  rw [offsetBits]
  cases w <;> split <;> decide

theorem encodeOperand_ok_iff {kind : OperandKind} {value : Int} {cell : Nat} :
    i.encodeOperand w kind value = .ok cell ↔
      i.HasRoom w (kind, value) ∧ i.fieldCell w (kind, value) = cell := by
  by_cases hoffset : kind = .offset
  · subst hoffset
    simp only [encodeOperand, HasRoom, fieldCell, forall_const, if_true]
    split
    next h => rw [Except.ok.injEq, and_iff_right h]
    next h => exact iff_of_false nofun fun h' => h h'.1
  · have hwrap : i.encodeOperand w kind value = .ok (w.wrap value) := by
      cases kind <;> first | contradiction | rfl
    simp only [hwrap, HasRoom, fieldCell, hoffset, false_implies, true_and, if_false, Except.ok.injEq]

/-- An offset is written if it is in the range of its field. -/
theorem encodeOperand_offset_ok_iff {value : Int} {cell : Nat} :
    i.encodeOperand w .offset value = .ok cell ↔
      (-2 ^ (i.offsetBits w - 1) ≤ value ∧ value < 2 ^ (i.offsetBits w - 1)) ∧
        TwosComplement.encode (i.offsetBits w) value = cell :=
  encodeOperand_ok_iff.trans (and_congr_left' (forall_prop_of_true rfl))

theorem fieldCell_lt (i : Instruction) (w : Width) (field : OperandKind × Int) :
    i.fieldCell w field < w.capacity := by
  rw [fieldCell]
  split
  · exact Nat.lt_of_lt_of_le (TwosComplement.encode_lt _ _)
      (Nat.pow_le_pow_right (by decide) (i.offsetBits_le w))
  · exact w.wrap_lt _

/-! ### A line -/

/-- The cells of an instruction are its opcode and the cells of its operands, if there are as many as
it takes and none of them is out of range. -/
theorem encode_ok_iff : i.encode w operands = .ok cells ↔ i.TakesCount operands.length ∧
    (∀ field ∈ i.fields operands, i.HasRoom w field) ∧
      i.opcode.toNat :: (i.fields operands).map (i.fieldCell w) = cells := by
  have hmap {full : List Int} {f : OperandKind × Int → Except Error Nat} {xs : List Nat}
      (hf : ∀ field, f field = i.encodeOperand w field.1 field.2) :
      (i.operands.zip full).mapM f = .ok xs ↔
        (∀ field ∈ i.operands.zip full, i.HasRoom w field) ∧
          (i.operands.zip full).map (i.fieldCell w) = xs :=
    mapM_ok_iff fun field _ => (hf field).symm ▸ encodeOperand_ok_iff
  simp only [encode, bind_ok_iff, pure_ok_iff, ← exists_completeOperands_iff]
  constructor
  · rintro ⟨full, hfull, xs, hxs, hcells⟩
    obtain ⟨hroom, rfl⟩ := (hmap fun _ => rfl).1 hxs
    rw [zip_of_completeOperands hfull] at hroom hcells
    exact ⟨⟨full, hfull⟩, hroom, hcells⟩
  · rintro ⟨⟨full, hfull⟩, hroom, hcells⟩
    rw [← zip_of_completeOperands hfull] at hroom hcells
    exact ⟨full, hfull, _, (hmap fun _ => rfl).2 ⟨hroom, rfl⟩, hcells⟩

/-- Nothing is cut off when the cells of an instruction are stored. -/
theorem lt_of_encode (h : i.encode w operands = .ok cells) : ∀ x ∈ cells, x < w.capacity := by
  obtain ⟨-, -, rfl⟩ := encode_ok_iff.1 h
  refine List.forall_mem_cons.2 ⟨w.byte_lt_capacity i.opcode, fun x hx => ?_⟩
  obtain ⟨field, -, rfl⟩ := List.mem_map.1 hx
  exact i.fieldCell_lt w field

theorem length_of_encode (h : i.encode w operands = .ok cells) : cells.length = i.size := by
  obtain ⟨hcount, -, rfl⟩ := encode_ok_iff.1 h
  rw [List.length_cons, List.length_map, length_fields hcount, size, Nat.add_comm]

/-- Where no operand may be left out, the last operand of the line is in the last cell. -/
theorem last_of_encode (himplied : i.implied = none) (h : i.encode w operands = .ok cells)
    {kind : OperandKind} (hkind : i.operands.getLast? = some kind) {value : Int}
    (hvalue : operands.getLast? = some value) :
    ∃ cell, cells[i.operands.length]? = some cell ∧ i.encodeOperand w kind value = .ok cell := by
  obtain ⟨hcount, hroom, rfl⟩ := encode_ok_iff.1 h
  have hlength : operands.length = i.operands.length := by
    rcases hcount with hcount | ⟨-, hsome, -⟩
    · exact hcount
    · rw [himplied] at hsome
      cases hsome
  rw [List.getLast?_eq_getElem?] at hkind hvalue
  rw [hlength] at hvalue
  have hfield : (i.fields operands)[i.operands.length - 1]? = some (kind, value) := by
    rw [fields_eq_zip hlength]
    exact List.getElem?_zip_eq_some.2 ⟨hkind, hvalue⟩
  obtain ⟨hlt, -⟩ := List.getElem?_eq_some_iff.1 hkind
  have hpos : i.operands.length = i.operands.length - 1 + 1 := by omega
  refine ⟨i.fieldCell w (kind, value), ?_, ?_⟩
  · rw [hpos, List.getElem?_cons_succ, List.getElem?_map, hfield, Option.map_some]
  · exact encodeOperand_ok_iff.2 ⟨hroom _ (List.mem_of_getElem? hfield), rfl⟩

end Instruction

end Microcontroller
