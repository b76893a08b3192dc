import Microcontroller.Isa.Instruction
/-!
# Assembling one instruction

A line of assembly is a mnemonic and its operands as integers. Offsets have to fit their field; every
other operand is wrapped into a word. An operand is written so that `Instruction.offset`, or the cell
itself, gives it back.
-/

namespace Microcontroller

-- Powers are those that the numbers come with.
attribute [local instance (2000)] instPowNat

namespace Instruction

def offset (i : Instruction) (w : Width) (cell : Nat) : Int :=
  TwosComplement.decode (i.offsetBits w) cell

def encodeOperand (i : Instruction) (w : Width) (kind : OperandKind) (value : Int) :
    Except Error Nat :=
  match kind with
  | .offset =>
    let bits := i.offsetBits w
    if -2 ^ (bits - 1) ≤ value ∧ value < 2 ^ (bits - 1) then
      .ok (TwosComplement.encode bits value)
    else .error (.operandRange i.mnemonic value bits)
  | _ => .ok (w.wrap value)

/-- The operands with the implied one supplied, if it was left out. -/
def completeOperands (i : Instruction) (operands : List Int) : Except Error (List Int) :=
  if operands.length = i.operands.length then .ok operands
  else
    match i.implied with
    | some last =>
      if operands.length + 1 = i.operands.length ∧ i.operands.getLast? = some .immediate then
        .ok (operands ++ [last])
      else .error (.operandCount i.mnemonic i.operands.length operands.length)
    | none => .error (.operandCount i.mnemonic i.operands.length operands.length)

/-- The cells of an instruction with these operands; of several that are out of range the first is
reported. -/
def encode (i : Instruction) (w : Width) (operands : List Int) : Except Error (List Nat) := do
  let operands ← i.completeOperands operands
  let cells ← (i.operands.zip operands).mapM fun (kind, value) => i.encodeOperand w kind value
  return i.opcode.toNat :: cells

end Instruction

/-- A line of assembly. -/
structure Line where
  mnemonic : String
  operands : List Int

namespace InstructionSet

def encode (s : InstructionSet) (w : Width) (line : Line) : Except Error (List Nat) := do
  (← s.table.lookup line.mnemonic).encode w line.operands

/-- The cells of a program, one line after the other. -/
def assemble (s : InstructionSet) (w : Width) (program : List Line) : Except Error (List Nat) := do
  return (← program.mapM (s.encode w)).flatten

end InstructionSet

end Microcontroller
