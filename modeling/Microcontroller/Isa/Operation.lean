/-!
# Operations

What an instruction does, apart from how it is written and which operands it takes.
-/

namespace Microcontroller

inductive Operation where
  | nop
  | add
  | addWithCarry
  | addWord
  | subtract
  | subtractWithCarry
  | subtractWord
  | increment
  | decrement
  | negate
  | compare
  | and
  | or
  | xor
  | complement
  | shiftLeft
  | shiftRight
  | arithmeticShiftRight
  | rotateRight
  | move
  | load
  | store
  | push
  | pop
  | input
  | output
  | setPin
  | clearPin
  | setFlag
  | clearFlag
  | bitStore
  | bitLoad
  | branchIfSet
  | branchIfClear
  | jump
  | call
  /-- Go on at the address on the stack. -/
  | ret
  /-- End the program. -/
  | stop
  deriving DecidableEq

namespace Operation

def all : List Operation :=
  [nop, add, addWithCarry, addWord, subtract, subtractWithCarry, subtractWord, increment,
    decrement, negate, compare, and, or, xor, complement, shiftLeft, shiftRight,
    arithmeticShiftRight, rotateRight, move, load, store, push, pop, input, output, setPin,
    clearPin, setFlag, clearFlag, bitStore, bitLoad, branchIfSet, branchIfClear, jump, call,
    ret, stop]

/-- Operations that may go on elsewhere than at the next instruction. -/
def isControlFlow : Operation → Bool
  | branchIfSet | branchIfClear | jump | call | ret => true
  | _ => false

/-- Operations that move the stack pointer. -/
def usesStack : Operation → Bool
  | push | pop | call | ret => true
  | _ => false

end Operation

end Microcontroller
