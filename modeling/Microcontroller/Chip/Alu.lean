import Microcontroller.Isa.Flag
/-!
# Arithmetic and logic

Arithmetic on patterns of any number of bits, with the flags each operation defines. An operand is
first cut down to its low `bits` bits. Zero, sign and parity always belong to the result; the carry,
the overflow and the carry out of bit 3 are there only for operations that have one.
-/

namespace Microcontroller.Alu

-- Powers are those that the numbers come with.
attribute [local instance (2000)] instPowNat

/-- A result and the flags that go with it. -/
structure Outcome where
  value : Nat
  zero : Bool
  sign : Bool
  parity : Bool
  carry : Option Bool
  overflow : Option Bool
  halfCarry : Option Bool
  deriving DecidableEq

/-- The value an outcome gives to a flag, if it gives it one. -/
def Outcome.flag? (o : Outcome) : Flag → Option Bool
  | .zero => some o.zero
  | .carry => o.carry
  | .overflow => o.overflow
  | .parity => some o.parity
  | .halfCarry => o.halfCarry
  | .sign => some o.sign
  | .trap | .interruptEnable | .transfer => none

def negative (bits value : Nat) : Bool := value.testBit (bits - 1)

/-- Whether an even number of the low `bits` bits is set. -/
def evenOnes (bits value : Nat) : Bool := (List.range bits).countP value.testBit % 2 == 0

def Outcome.of (bits value : Nat) (carry overflow halfCarry : Option Bool) : Outcome :=
  ⟨value, value == 0, negative bits value, evenOnes bits value, carry, overflow, halfCarry⟩

/-- `a + b + carry`. The sum overflows when both operands differ from it in sign. -/
def add (bits a b : Nat) (carry : Bool) : Outcome :=
  let a := a % 2 ^ bits
  let b := b % 2 ^ bits
  let sum := a + b + carry.toNat
  let value := sum % 2 ^ bits
  .of bits value (decide (2 ^ bits ≤ sum))
    ((negative bits a != negative bits value) && (negative bits b != negative bits value))
    (decide (16 ≤ a % 16 + b % 16 + carry.toNat))

/-- `a - b - borrow`. The difference overflows when `a` differs in sign from both `b` and it. -/
def sub (bits a b : Nat) (borrow : Bool) : Outcome :=
  let a := a % 2 ^ bits
  let b := b % 2 ^ bits
  let value := (2 ^ bits + a - (b + borrow.toNat)) % 2 ^ bits
  .of bits value (decide (a < b + borrow.toNat))
    ((negative bits a != negative bits b) && (negative bits a != negative bits value))
    (decide (a % 16 < b % 16 + borrow.toNat))

def logic (bits value : Nat) : Outcome :=
  .of bits (value % 2 ^ bits) none false none

def complement (bits a : Nat) : Outcome :=
  .of bits (2 ^ bits - 1 - a % 2 ^ bits) true false none

def negate (bits a : Nat) : Outcome := sub bits 0 a false

/-- The outcome of a shift that moved `carry` out; it overflows when that changes the sign. -/
def shifted (bits value : Nat) (carry : Bool) (halfCarry : Option Bool) : Outcome :=
  .of bits value carry (negative bits value != carry) halfCarry

def shiftLeft (bits a : Nat) : Outcome :=
  let a := a % 2 ^ bits
  shifted bits (2 * a % 2 ^ bits) (negative bits a) (a.testBit 3)

def shiftRight (bits a : Nat) : Outcome :=
  let a := a % 2 ^ bits
  shifted bits (a / 2) (a.testBit 0) none

/-- Shift right with the top bit kept in place. -/
def arithmeticShiftRight (bits a : Nat) : Outcome :=
  let a := a % 2 ^ bits
  shifted bits (a / 2 + (negative bits a).toNat * 2 ^ (bits - 1)) (a.testBit 0) none

/-- Shift right with the carry moved in at the top. -/
def rotateRight (bits a : Nat) (carry : Bool) : Outcome :=
  let a := a % 2 ^ bits
  shifted bits (a / 2 + carry.toNat * 2 ^ (bits - 1)) (a.testBit 0) none

end Microcontroller.Alu
