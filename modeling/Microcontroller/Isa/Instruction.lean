import Microcontroller.Error
import Microcontroller.Isa.Flag
import Microcontroller.Isa.Operand
import Microcontroller.Isa.Operation
/-!
# Instructions and their table

An instruction is one opcode cell followed by a cell for each operand. A table of instructions has
no opcode twice and no mnemonic twice, where mnemonics that differ only in the case of ASCII letters
count as one; `InstructionTable.ofRows` finds the first row that breaks this.
-/

namespace Microcontroller

structure Instruction where
  mnemonic : String
  opcode : Byte
  operation : Operation
  operands : List OperandKind
  /-- The flags it writes, as far as its operation gives them a value. -/
  flags : List Flag
  /-- The last operand, where it may be left out. -/
  implied : Option Int
  description : String
  deriving DecidableEq

namespace Instruction

/-- Cells it takes up. -/
def size (i : Instruction) : Nat := 1 + i.operands.length

def encodedBits (i : Instruction) (w : Width) : Nat := i.size * w.bits

/-- Bits of its offset operand: a conditional branch has a short one, a jump a whole word. -/
def offsetBits (i : Instruction) (w : Width) : Nat :=
  match i.operation with
  | .branchIfSet | .branchIfClear => 7
  | _ => w.bits

def modifies (i : Instruction) (f : Flag) : Bool := i.flags.contains f

/-- What mnemonics are told apart by: their characters, with ASCII letters in upper case. -/
def key (mnemonic : String) : List Char := mnemonic.toList.map Char.toUpper

def signature (i : Instruction) : String :=
  ", ".intercalate (i.operands.map OperandKind.symbol)

def text (i : Instruction) : String :=
  Numeral.hex 2 i.opcode.toNat ++ " " ++ i.mnemonic
    ++ (if i.operands.isEmpty then "" else " " ++ i.signature)

end Instruction

structure InstructionTable where
  /-- The instructions in the order of their declaration. -/
  rows : List Instruction
  opcodes : (rows.map (·.opcode)).Nodup
  mnemonics : (rows.map (Instruction.key ·.mnemonic)).Nodup

namespace InstructionTable

def empty : InstructionTable := ⟨[], by simp, by simp⟩

/-- The table with one more row at its end. -/
def push (t : InstructionTable) (row : Instruction) : Except Error InstructionTable :=
  match ho : t.rows.find? (·.opcode == row.opcode) with
  | some first => .error (.duplicateOpcode row.opcode first.mnemonic row.mnemonic)
  | none =>
    if hm : Instruction.key row.mnemonic ∈ t.rows.map (Instruction.key ·.mnemonic) then
      .error (.duplicateMnemonic row.mnemonic)
    else
      .ok {
        rows := t.rows ++ [row]
        opcodes := by
          have hne : ∀ r ∈ t.rows, r.opcode ≠ row.opcode := by simpa using ho
          simpa [List.nodup_append] using ⟨t.opcodes, hne⟩
        mnemonics := by
          have hne : ∀ r ∈ t.rows, Instruction.key r.mnemonic ≠ Instruction.key row.mnemonic := by
            simpa using hm
          simpa [List.nodup_append] using ⟨t.mnemonics, hne⟩ }

/-- The table of some rows, or what is wrong with the first of them that clashes with one before
it. -/
def ofRows (rows : List Instruction) : Except Error InstructionTable :=
  rows.foldlM push empty

def decode? (t : InstructionTable) (opcode : Byte) : Option Instruction :=
  t.rows.find? (·.opcode == opcode)

/-- The instruction with a mnemonic, in any letter case. -/
def lookup (t : InstructionTable) (mnemonic : String) : Except Error Instruction :=
  match t.rows.find? (fun r => Instruction.key r.mnemonic == Instruction.key mnemonic) with
  | some row => .ok row
  | none => .error (.unknownMnemonic mnemonic)

end InstructionTable

/-- A family of chips with one layout of flags and one table of instructions. -/
structure InstructionSet where
  name : String
  flags : FlagLayout
  table : InstructionTable

namespace InstructionSet

def ofRows (name : String) (flags : FlagLayout) (rows : List Instruction) :
    Except Error InstructionSet := do
  return ⟨name, flags, ← InstructionTable.ofRows rows⟩

def statusBits (s : InstructionSet) : Nat := s.flags.statusBits

end InstructionSet

end Microcontroller
