import Microcontroller.Bits.Byte
/-!
# Status flags

The nine flags of the status register, and where an instruction set keeps them. A layout gives each
flag a status bit of its own; the register is as many whole bytes wide as the highest bit needs.
-/

namespace Microcontroller

inductive Flag where
  | zero
  | carry
  | overflow
  | parity
  | trap
  | halfCarry
  | sign
  | interruptEnable
  | transfer
  deriving DecidableEq

namespace Flag

/-- All flags, in order. -/
def all : List Flag :=
  [zero, carry, overflow, parity, trap, halfCarry, sign, interruptEnable, transfer]

def ordinal : Flag → Nat
  | zero => 0
  | carry => 1
  | overflow => 2
  | parity => 3
  | trap => 4
  | halfCarry => 5
  | sign => 6
  | interruptEnable => 7
  | transfer => 8

def symbol : Flag → String
  | zero => "Z"
  | carry => "C"
  | overflow => "O"
  | parity => "P"
  | trap => "T"
  | halfCarry => "H"
  | sign => "S"
  | interruptEnable => "I"
  | transfer => "X"

def name : Flag → String
  | zero => "zero"
  | carry => "carry"
  | overflow => "overflow"
  | parity => "parity"
  | trap => "trap"
  | halfCarry => "half-carry"
  | sign => "sign"
  | interruptEnable => "interrupt-enable"
  | transfer => "transfer"

theorem mem_all (f : Flag) : f ∈ all := by
  cases f <;> decide

end Flag

/-- Which status bit holds each flag. -/
structure FlagLayout where
  position : Flag → Byte
  distinct : (Flag.all.map position).Nodup

namespace FlagLayout

/-- The layout with these positions, if no two flags share one. -/
def ofPositions? (position : Flag → Byte) : Option FlagLayout :=
  if distinct : (Flag.all.map position).Nodup then some ⟨position, distinct⟩ else none

/-- The flags in order, from bit 0 on. -/
def inOrder : FlagLayout where
  position f := BitVec.ofNat 8 f.ordinal
  distinct := by decide

def index (l : FlagLayout) (f : Flag) : Nat := (l.position f).toNat

def flagAt? (l : FlagLayout) (index : Nat) : Option Flag :=
  Flag.all.find? fun f => l.index f == index

/-- Width of the status register. -/
def statusBits (l : FlagLayout) : Nat :=
  ((Flag.all.map l.index).foldr max 0 / 8 + 1) * 8

end FlagLayout

end Microcontroller
