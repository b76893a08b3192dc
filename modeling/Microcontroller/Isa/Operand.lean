/-!
# Operands

The kinds of operand an instruction can take, and the pointers: pairs of registers at the top of the
register bank that hold an address of two words.
-/

namespace Microcontroller

inductive OperandKind where
  | destination
  | source
  | result
  | immediate
  | address
  | offset
  | bit
  | flagBit
  | pointer
  | ioAddress
  deriving DecidableEq

namespace OperandKind

def all : List OperandKind :=
  [destination, source, result, immediate, address, offset, bit, flagBit, pointer, ioAddress]

def symbol : OperandKind → String
  | destination => "Rd"
  | source => "Rr"
  | result => "Rq"
  | immediate => "K"
  | address => "k"
  | offset => "k"
  | bit => "b"
  | flagBit => "s"
  | pointer => "P"
  | ioAddress => "A"

/-- Whether the operand is the number of a register. -/
def isRegister : OperandKind → Bool
  | destination | source | result => true
  | _ => false

end OperandKind

inductive Pointer where
  | x
  | y
  | z
  deriving DecidableEq

namespace Pointer

def ofIndex? : Nat → Option Pointer
  | 0 => some x
  | 1 => some y
  | 2 => some z
  | _ => none

def index : Pointer → Nat
  | x => 0
  | y => 1
  | z => 2

def name : Pointer → String
  | x => "X"
  | y => "Y"
  | z => "Z"

/-- The low and the high register of a pointer in a bank of `registers`: the three pointers are the
top six registers, Z the last two. A small bank lacks the lower ones. -/
def pair? (p : Pointer) (registers : Nat) : Option (Nat × Nat) :=
  let fromTop := 6 - 2 * p.index
  if fromTop ≤ registers then some (registers - fromTop, registers - fromTop + 1) else none

end Pointer

end Microcontroller
