import Microcontroller.Numeral
import Microcontroller.Word.Width
/-!
# A machine word

One word with its width and its reading, signed or unsigned. The pattern is what is stored; the
value is what the reading makes of it.
-/

namespace Microcontroller

structure Word where
  width : Width
  signed : Bool
  raw : Nat
  deriving DecidableEq

/-- What a pattern reads as. -/
def Width.value (w : Width) (signed : Bool) (raw : Nat) : Int :=
  if signed then w.toSigned raw else raw

namespace Word

def zero (width : Width) (signed : Bool) : Word := ⟨width, signed, 0⟩

def get (x : Word) : Int := x.width.value x.signed x.raw

/-- The word that stands for `v`, which wraps around if it is out of range. -/
def set (x : Word) (v : Int) : Word := { x with raw := x.width.wrap v }

def setRaw (x : Word) (r : Nat) : Word := { x with raw := x.width.truncate r }

def high (x : Word) : Nat := x.width.high x.raw

def low (x : Word) : Nat := x.width.low x.raw

def setHigh (x : Word) (v : Nat) : Word := { x with raw := x.width.withHigh x.raw v }

def setLow (x : Word) (v : Nat) : Word := { x with raw := x.width.withLow x.raw v }

def clear (x : Word) : Word := { x with raw := 0 }

def text (x : Word) : String := Numeral.signed x.get

end Word

end Microcontroller
