import Microcontroller.Isa.Instruction
/-!
# The M1047 family

The instruction set of the M1047 chips: 47 instructions, whose opcodes are their places in the
table, and the flags in order from status bit 0 on.
-/

namespace Microcontroller.M1047

/-- Written by additions, subtractions and the left shift. -/
def arithmeticFlags : List Flag := [.zero, .carry, .overflow, .sign, .halfCarry]

/-- Written by arithmetic on register pairs and the right shifts. -/
def wordFlags : List Flag := [.zero, .carry, .overflow, .sign]

def logicFlags : List Flag := [.zero, .overflow, .sign, .parity]

def complementFlags : List Flag := [.zero, .carry, .overflow, .sign, .parity]

/-- Written by increment and decrement, which leave the carry to a surrounding addition. -/
def stepFlags : List Flag := [.zero, .overflow, .sign]

def rows : List Instruction :=
  [
    ⟨"NOP", 0x00, .nop, [], [], none,
      "No operation"⟩,
    ⟨"ADD", 0x01, .add, [.destination, .source], arithmeticFlags, none,
      "Add without carry: Rd = Rd + Rr"⟩,
    ⟨"ADC", 0x02, .addWithCarry, [.destination, .source], arithmeticFlags, none,
      "Add with carry: Rd = Rd + Rr + C"⟩,
    ⟨"ADIW", 0x03, .addWord, [.pointer, .immediate], wordFlags, some 1,
      "Add immediate to word: P = P + K"⟩,
    ⟨"SUB", 0x04, .subtract, [.destination, .source], arithmeticFlags, none,
      "Subtract without carry: Rd = Rd - Rr"⟩,
    ⟨"SUBI", 0x05, .subtract, [.destination, .immediate], arithmeticFlags, none,
      "Subtract immediate: Rd = Rd - K"⟩,
    ⟨"SBC", 0x06, .subtractWithCarry, [.destination, .source], arithmeticFlags, none,
      "Subtract with carry: Rd = Rd - Rr - C"⟩,
    ⟨"SBCI", 0x07, .subtractWithCarry, [.destination, .immediate], arithmeticFlags, none,
      "Subtract immediate with carry: Rd = Rd - K - C"⟩,
    ⟨"SBIW", 0x08, .subtractWord, [.pointer, .immediate], wordFlags, some 1,
      "Subtract immediate from word: P = P - K"⟩,
    ⟨"AND", 0x09, .and, [.destination, .source], logicFlags, none,
      "Logical and: Rd = Rd & Rr"⟩,
    ⟨"ANDI", 0x0A, .and, [.destination, .immediate], logicFlags, none,
      "Logical and with immediate: Rd = Rd & K"⟩,
    ⟨"OR", 0x0B, .or, [.destination, .source], logicFlags, none,
      "Logical or: Rd = Rd | Rr"⟩,
    ⟨"ORI", 0x0C, .or, [.destination, .immediate], logicFlags, none,
      "Logical or with immediate: Rd = Rd | K"⟩,
    ⟨"EOR", 0x0D, .xor, [.destination, .source], logicFlags, none,
      "Exclusive or: Rd = Rd ^ Rr"⟩,
    ⟨"COM", 0x0E, .complement, [.destination], complementFlags, none,
      "One's complement: Rd = !Rd"⟩,
    ⟨"NEG", 0x0F, .negate, [.destination], arithmeticFlags, none,
      "Two's complement: Rd = 0 - Rd"⟩,
    ⟨"INC", 0x10, .increment, [.destination], stepFlags, none,
      "Increment: Rd = Rd + 1"⟩,
    ⟨"DEC", 0x11, .decrement, [.destination], stepFlags, none,
      "Decrement: Rd = Rd - 1"⟩,
    ⟨"CP", 0x12, .compare, [.destination, .source], arithmeticFlags, none,
      "Compare: flags of Rd - Rr"⟩,
    ⟨"CPI", 0x13, .compare, [.destination, .immediate], arithmeticFlags, none,
      "Compare with immediate: flags of Rd - K"⟩,
    ⟨"LSL", 0x14, .shiftLeft, [.destination], arithmeticFlags, none,
      "Logical shift left"⟩,
    ⟨"LSR", 0x15, .shiftRight, [.destination], wordFlags, none,
      "Logical shift right"⟩,
    ⟨"ASR", 0x16, .arithmeticShiftRight, [.destination], wordFlags, none,
      "Arithmetic shift right"⟩,
    ⟨"ROR", 0x17, .rotateRight, [.destination], wordFlags, none,
      "Rotate right through carry"⟩,
    ⟨"MOV", 0x18, .move, [.destination, .source], [], none,
      "Copy register: Rd = Rr"⟩,
    ⟨"LDI", 0x19, .move, [.destination, .immediate], [], none,
      "Load immediate: Rd = K"⟩,
    ⟨"LD", 0x1A, .load, [.destination, .pointer], [], none,
      "Load indirect: Rd = RAM[P]"⟩,
    ⟨"ST", 0x1B, .store, [.pointer, .source], [], none,
      "Store indirect: RAM[P] = Rr"⟩,
    ⟨"LDS", 0x1C, .load, [.destination, .address], [], none,
      "Load direct: Rd = RAM[k]"⟩,
    ⟨"STS", 0x1D, .store, [.address, .source], [], none,
      "Store direct: RAM[k] = Rr"⟩,
    ⟨"PUSH", 0x1E, .push, [.source], [], none,
      "Push register on stack"⟩,
    ⟨"POP", 0x1F, .pop, [.destination], [], none,
      "Pop register from stack"⟩,
    ⟨"IN", 0x20, .input, [.destination, .ioAddress], [], none,
      "Read I/O: Rd = IO[A]"⟩,
    ⟨"OUT", 0x21, .output, [.ioAddress, .source], [], none,
      "Write I/O: IO[A] = Rr"⟩,
    ⟨"SBI", 0x22, .setPin, [.bit], [], none,
      "Set digital pin b"⟩,
    ⟨"CBI", 0x23, .clearPin, [.bit], [], none,
      "Clear digital pin b"⟩,
    ⟨"BSET", 0x24, .setFlag, [.flagBit], Flag.all, none,
      "Set status bit s"⟩,
    ⟨"BCLR", 0x25, .clearFlag, [.flagBit], Flag.all, none,
      "Clear status bit s"⟩,
    ⟨"BST", 0x26, .bitStore, [.destination, .bit], [.transfer], none,
      "Store bit: X = Rd(b)"⟩,
    ⟨"BLD", 0x27, .bitLoad, [.destination, .bit], [], none,
      "Load bit: Rd(b) = X"⟩,
    ⟨"BRBS", 0x28, .branchIfSet, [.flagBit, .offset], [], none,
      "Branch if status bit s is set"⟩,
    ⟨"BRBC", 0x29, .branchIfClear, [.flagBit, .offset], [], none,
      "Branch if status bit s is clear"⟩,
    ⟨"RJMP", 0x2A, .jump, [.offset], [], none,
      "Relative jump: IP = IP + k"⟩,
    ⟨"JMP", 0x2B, .jump, [.address], [], none,
      "Jump: IP = k"⟩,
    ⟨"CALL", 0x2C, .call, [.address], [], none,
      "Call subroutine at k"⟩,
    ⟨"RET", 0x2D, .ret, [], [], none,
      "Return from subroutine"⟩,
    ⟨"BREAK", 0x2E, .stop, [], [], none,
      "Stop the chip"⟩
  ]

def table : InstructionTable where
  rows := rows
  opcodes := by decide
  mnemonics := by decide +kernel

def instructionSet : InstructionSet := ⟨"m1047", FlagLayout.inOrder, table⟩

end Microcontroller.M1047
