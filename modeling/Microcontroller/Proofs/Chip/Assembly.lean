import Microcontroller.Proofs.Chip.Program
import Microcontroller.Proofs.Isa.RoundTrip
/-!
# Lines of assembly in a chip

What a line of assembly says is in its cells, whatever stands behind them, and a chip that has loaded
them shows it.
-/

namespace Microcontroller.Chip

variable {set : InstructionSet} {c : Chip} {address : Nat} {d : Decoded}

theorem disassembleAt_of_fetch (h : c.fetch address = .ok d) :
    c.disassembleAt address = .ok d.text := by
  rw [disassembleAt, h]

/-- An instruction that was loaded is shown where it was loaded. -/
theorem disassembleAt_loadProgram (hc : Reachable set c) (hd : d.Formed set c.width)
    (hcells : ∀ x ∈ d.cells, x < c.width.capacity) {loaded : Chip}
    (h : c.loadProgram address d.cells = .ok loaded) :
    loaded.disassembleAt address = .ok d.text := by
  have hholds := holds_of_loadProgram hc.conforms hcells h
  obtain ⟨m, -, hloaded⟩ := bind_ok_iff.1 h
  rw [← pure_ok_iff.1 hloaded] at hholds ⊢
  exact disassembleAt_of_fetch (hholds.fetch (hc.conforms.instructions.symm ▸ hd))

/-- A line of assembly is refused exactly if no row has its mnemonic in any letter case, if it has not
as many operands as the row takes, or if an offset is out of range. Its cells are otherwise as many as
its row has, and words; its row and its operands are read back from them, whatever follows, and shown
by a chip of its width that has loaded them. -/
theorem lines_read_back (set : InstructionSet) (w : Width) (line : Line) :
    ((∃ e, set.encode w line = .error e) ↔
      (∀ row ∈ set.table.rows, Instruction.key row.mnemonic ≠ Instruction.key line.mnemonic) ∨
      ∃ row ∈ set.table.rows, Instruction.key row.mnemonic = Instruction.key line.mnemonic ∧
        (¬ row.TakesCount line.operands.length ∨
          ∃ value, (.offset, value) ∈ row.fields line.operands ∧
            ¬ (-2 ^ (row.offsetBits w - 1) ≤ value ∧ value ≤ 2 ^ (row.offsetBits w - 1) - 1))) ∧
    ∀ cells, set.encode w line = .ok cells →
      ∃ row ∈ set.table.rows, Instruction.key row.mnemonic = Instruction.key line.mnemonic ∧
        cells.length = row.size ∧ (∀ x ∈ cells, x < 2 ^ w.bits) ∧
        ∃ d : Decoded, d.instruction = row ∧
          List.Forall₂ (row.Reads w) (row.fields line.operands) d.operands ∧
          (∀ tail, set.decode w (cells ++ tail) = .ok d) ∧
          ∀ c, Reachable set c → c.width = w → ∀ address loaded,
            c.loadProgram address cells = .ok loaded →
              loaded.disassembleAt address = .ok d.text := by
  constructor
  · simp only [InstructionSet.encode_error_iff, Instruction.not_admitted_iff]
  · intro cells hencode
    obtain ⟨row, ⟨hrow, hkey⟩, hencode⟩ := InstructionSet.encode_ok_iff.1 hencode
    obtain ⟨-, hroom, -⟩ := Instruction.encode_ok_iff.1 hencode
    have hlt := Instruction.lt_of_encode hencode
    have hlength := Instruction.length_of_encode hencode
    obtain ⟨hformed, rfl⟩ := InstructionSet.written_formed hrow hencode
    refine ⟨row, hrow, hkey, hlength, hlt, row.written w line.operands, rfl,
      Instruction.reads_written hroom, fun tail => ?_, ?_⟩
    · exact InstructionSet.decode_ok_iff.2 ⟨hformed, List.prefix_append _ tail⟩
    · rintro c hc rfl address loaded hload
      exact disassembleAt_loadProgram hc hformed hlt hload

/-- An addition to a pair of registers in two letter cases. With no operand it is refused, since only
the last may be left out; with the pair alone, the default stands in the last cell and in what a chip
shows. -/
theorem lines_read_back_default :
    let set := M1047.instructionSet
    let row : Instruction := ⟨"ADIW", 0x03, .addWord, [.pointer, .immediate], M1047.wordFlags, some 1,
      "Add immediate to word: P = P + K"⟩
    let config : Config := { Config.m1047 with registers := 1, ram := 4, rom := 0, mapped := 0 }
    let c := blank set config .w8 .halt
    (∃ e, set.encode .w8 ⟨"adiw", []⟩ = .error e) ∧
      set.encode .w8 ⟨"adIW", [2]⟩ = .ok [3, 2, 1] ∧
      set.decode .w8 [3, 2, 1, 0xFF] = .ok ⟨row, [2, 1], .w8⟩ ∧
      ∃ loaded, c.loadProgram 1 [3, 2, 1] = .ok loaded ∧
        loaded.disassembleAt 1 = .ok "adiw Z, 1" := by
  intro set row config c
  have hrow : row ∈ set.table.rows := List.mem_of_getElem? (i := 3) rfl
  have hrefused : ¬ row.TakesCount 0 := by
    rintro (h | ⟨h, -⟩) <;> cases h
  have hencode : set.encode .w8 ⟨"adIW", [2]⟩ = .ok [3, 2, 1] := by rfl
  obtain ⟨-, -, -, -, -, d, -, -, hdecode, hshown⟩ := (lines_read_back set .w8 _).2 _ hencode
  have hd : set.decode .w8 ([3, 2, 1] ++ []) = .ok ⟨row, [2, 1], .w8⟩ := by rfl
  cases (hdecode []).symm.trans hd
  have hc : Reachable set c := .new (show new set config .halt = .ok c from rfl)
  have htext : Decoded.text ⟨row, [2, 1], .w8⟩ = "adiw Z, 1" := by decide +kernel
  refine ⟨(lines_read_back set .w8 _).1.2 (.inr ⟨row, hrow, by decide, .inl hrefused⟩), hencode,
    hdecode [0xFF], _, rfl, ?_⟩
  rw [hshown c hc rfl 1 _ rfl, htext]

end Microcontroller.Chip
