import Microcontroller.Isa.Encode
/-!
# Reading an instruction

`InstructionSet.decodeAt` reads the instruction at an address of a program. It is the only reader of
instructions: listings and chips both call it.
-/

namespace Microcontroller

/-- An instruction as it stands in a program, with its operand cells. -/
structure Decoded where
  instruction : Instruction
  operands : List Nat
  width : Width
  deriving DecidableEq

namespace Decoded

def size (d : Decoded) : Nat := d.instruction.size

/-- The operand cells beside their kinds. -/
def fields (d : Decoded) : List (OperandKind × Nat) := d.instruction.operands.zip d.operands

/-- The cell of the first operand of a kind. -/
def operand? (d : Decoded) (kind : OperandKind) : Option Nat := d.fields.lookup kind

def has (d : Decoded) (kind : OperandKind) : Bool := d.instruction.operands.contains kind

/-- The signed value of the offset operand, if there is one. -/
def offset? (d : Decoded) : Option Int :=
  (d.operand? .offset).map (d.instruction.offset d.width)

end Decoded

inductive DecodeError where
  | unknownOpcode (opcode : Byte)
  | truncated (mnemonic : String) (needed available : Nat)
  | invalidCell (cell : Nat)
  deriving DecidableEq

def DecodeError.message : DecodeError → String
  | unknownOpcode opcode => "Unknown opcode: " ++ Numeral.upperHex 2 opcode.toNat
  | truncated mnemonic needed available =>
      "Truncated instruction: " ++ mnemonic ++ " needs " ++ Numeral.decimal needed ++ " cells, "
        ++ Numeral.decimal available ++ " available"
  | invalidCell cell => "Invalid opcode cell: " ++ Numeral.upperHex 8 cell

namespace InstructionSet

/-- The instruction whose first cell is at `address` in `program`. -/
def decodeAt (s : InstructionSet) (w : Width) (program : Array Nat) (address : Nat) :
    Except DecodeError Decoded :=
  match program[address]? with
  | none => .error (.truncated "" 1 0)
  | some first =>
    if first < 256 then
      let opcode := BitVec.ofNat 8 first
      match s.table.decode? opcode with
      | none => .error (.unknownOpcode opcode)
      | some i =>
        if address + i.size ≤ program.size then
          .ok ⟨i, (program.extract (address + 1) (address + i.size)).toList, w⟩
        else .error (.truncated i.mnemonic i.size (program.size - address))
    else .error (.invalidCell first)

/-- The instruction at the start of `cells`. -/
def decode (s : InstructionSet) (w : Width) (cells : List Nat) : Except DecodeError Decoded :=
  s.decodeAt w cells.toArray 0

end InstructionSet

end Microcontroller
