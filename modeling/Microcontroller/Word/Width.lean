/-!
# Word widths

A chip's words are 8, 16 or 32 bits wide. A word is kept as its bit pattern, a natural number below
`2 ^ bits`; `TwosComplement.encode` and `TwosComplement.decode` pass between patterns of any number
of bits and the integers they stand for.
-/

namespace Microcontroller

-- Powers are those that the numbers come with.
attribute [local instance (2000)] instPowNat

namespace TwosComplement

/-- The pattern of `n` bits that stands for `x`: its residue modulo `2 ^ n`. -/
def encode (n : Nat) (x : Int) : Nat :=
  (x % (2 ^ n : Nat)).toNat

/-- The integer that the low `n` bits of `r` stand for: the residue of `r` modulo `2 ^ n` that lies
in `[-2 ^ (n - 1), 2 ^ (n - 1))`. -/
def decode (n : Nat) (r : Nat) : Int :=
  (r : Int).bmod (2 ^ n)

end TwosComplement

inductive Width where
  | w8
  | w16
  | w32
  deriving DecidableEq

namespace Width

def bits : Width → Nat
  | w8 => 8
  | w16 => 16
  | w32 => 32

def ofBits? : Nat → Option Width
  | 8 => some w8
  | 16 => some w16
  | 32 => some w32
  | _ => none

/-- The narrowest width with room for `n` bits. -/
def fitting? (n : Nat) : Option Width :=
  if n ≤ 8 then some w8 else if n ≤ 16 then some w16 else if n ≤ 32 then some w32 else none

/-- Number of distinct words. -/
def capacity (w : Width) : Nat := 2 ^ w.bits

def mask (w : Width) : Nat := w.capacity - 1

/-- The word whose only one is the top bit. -/
def signBit (w : Width) : Nat := 2 ^ (w.bits - 1)

def halfBits (w : Width) : Nat := w.bits / 2

def halfCapacity (w : Width) : Nat := 2 ^ w.halfBits

def halfMask (w : Width) : Nat := w.halfCapacity - 1

/-- The word a pattern of any length is cut down to. -/
def truncate (w : Width) (r : Nat) : Nat := r % w.capacity

/-- The word that stands for `x`. -/
def wrap (w : Width) (x : Int) : Nat := TwosComplement.encode w.bits x

/-- The two's complement reading of a word. -/
def toSigned (w : Width) (r : Nat) : Int := TwosComplement.decode w.bits r

def high (w : Width) (r : Nat) : Nat := r / w.halfCapacity

def low (w : Width) (r : Nat) : Nat := r % w.halfCapacity

/-- `r` with its upper half replaced by as much of `v` as fits. -/
def withHigh (w : Width) (r v : Nat) : Nat := v % w.halfCapacity * w.halfCapacity + w.low r

/-- `r` with its lower half replaced by as much of `v` as fits. -/
def withLow (w : Width) (r v : Nat) : Nat := w.high r * w.halfCapacity + v % w.halfCapacity

/-- The word above a word, as one number of twice the width. -/
def join (w : Width) (high low : Nat) : Nat := high * w.capacity + low

def text : Width → String
  | w8 => "8-bit"
  | w16 => "16-bit"
  | w32 => "32-bit"

end Width

end Microcontroller
