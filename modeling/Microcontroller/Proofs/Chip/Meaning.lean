import Mathlib.Algebra.Group.Even
import Mathlib.Algebra.Group.Int.Defs
import Mathlib.Algebra.Group.Nat.Defs
import Mathlib.Data.Finset.Card
import Mathlib.Data.Finset.Range
import Microcontroller.Isa.Flag
import Microcontroller.Isa.Operation
import Microcontroller.Word.Width
/-!
# What arithmetic means

The meaning of an arithmetic operation on words of `bits` bits, in terms of numbers and with no
reference to how it is carried out. Additions and subtractions are computed without bounds, once on
the words as they are, once on the integers they stand for, and once on their lowest four bits: the
result is the residue of the first, and each of the three has a flag that tells whether it left its
range. All other operations say what they carry themselves.
-/

namespace Microcontroller

/-- A result, and the conditions for the flags that the result does not determine. -/
structure Meaning where
  result : Nat
  carry : Prop
  overflow : Prop
  halfCarry : Prop

namespace Meaning

/-- The condition for a flag to be set. -/
def Sets (m : Meaning) (bits : Nat) : Flag → Prop
  | .zero => m.result = 0
  | .sign => 2 ^ (bits - 1) ≤ m.result
  | .parity => Even ((Finset.range bits).filter fun i => m.result.testBit i).card
  | .carry => m.carry
  | .overflow => m.overflow
  | .halfCarry => m.halfCarry
  | .trap | .interruptEnable | .transfer => False

variable (bits : Nat)

/-- The outcome of a sum or a difference of which the exact values are known. -/
def exact (unsigned signed lowest : Int) : Meaning where
  result := (unsigned % 2 ^ bits).toNat
  carry := unsigned < 0 ∨ 2 ^ bits ≤ unsigned
  overflow := signed < -2 ^ (bits - 1) ∨ 2 ^ (bits - 1) ≤ signed
  halfCarry := lowest < 0 ∨ 16 ≤ lowest

/-- The integer that a word stands for. -/
def signed (a : Nat) : Int := if a < 2 ^ (bits - 1) then a else a - 2 ^ bits

def sum (a b carry : Nat) : Meaning :=
  exact bits (a + b + carry) (signed bits a + signed bits b + carry) (a % 16 + b % 16 + carry)

def difference (a b borrow : Nat) : Meaning :=
  exact bits (a - b - borrow) (signed bits a - signed bits b - borrow) (a % 16 - b % 16 - borrow)

/-- A word computed bit by bit. -/
def logic (result : Nat) : Meaning := ⟨result, False, False, False⟩

/-- A shift overflows when the bit that it moves out differs from the sign of the result. -/
def shift (result : Nat) (out halfCarry : Prop) : Meaning where
  result := result
  carry := out
  overflow := ¬(2 ^ (bits - 1) ≤ result ↔ out)
  halfCarry := halfCarry

end Meaning

/-- What an operation on the words `a` and `b`, and on the carry, means. Operations on one word do not
look at `b`. -/
def Operation.meaning? (bits a b carry : Nat) : Operation → Option Meaning
  | .add => some (.sum bits a b 0)
  | .addWithCarry => some (.sum bits a b carry)
  | .subtract | .compare => some (.difference bits a b 0)
  | .subtractWithCarry => some (.difference bits a b carry)
  | .increment => some (.sum bits a 1 0)
  | .decrement => some (.difference bits a 1 0)
  | .negate => some (.difference bits 0 a 0)
  | .and => some (.logic (a &&& b))
  | .or => some (.logic (a ||| b))
  | .xor => some (.logic (a ^^^ b))
  | .complement => some { Meaning.logic (2 ^ bits - 1 - a) with carry := True }
  | .shiftLeft => some (.shift bits (2 * a % 2 ^ bits) (2 ^ (bits - 1) ≤ a) (16 ≤ 2 * (a % 16)))
  | .shiftRight => some (.shift bits (a / 2) (a % 2 = 1) False)
  | .arithmeticShiftRight =>
    some (.shift bits (Meaning.signed bits a / 2 % 2 ^ bits).toNat (a % 2 = 1) False)
  | .rotateRight => some (.shift bits (a / 2 + carry * 2 ^ (bits - 1)) (a % 2 = 1) False)
  | _ => none

end Microcontroller
