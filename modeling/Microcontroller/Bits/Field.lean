import Microcontroller.Error
import Microcontroller.Word.Basic
/-!
# Fields of bits

A field of `len` bits is kept packed, eight bits to a unit, the first bit of a unit in its top
place. The last unit may have places left over; no operation sets them, which is why fields of one
length that hold the same bits are equal.
-/

namespace Microcontroller

-- Powers are those that the numbers come with, which takes an exponent of a known type.
attribute [local instance (2000)] instPowNat

structure BitField where
  len : Nat
  units : Array Byte
  deriving DecidableEq

namespace BitField

/-- Units it takes to hold `len` bits. -/
def unitsFor (len : Nat) : Nat := (len + 7) / 8

def zero (len : Nat) : BitField := ⟨len, Array.replicate (unitsFor len) 0⟩

def isEmpty (f : BitField) : Bool := f.len == 0

/-- The unit whose only one is at the place of bit `index`. -/
def place (index : Nat) : Byte := 0x80#8 >>> (index % 8)

/-- The bit at `index`, false past the end. -/
def bit (f : BitField) (index : Nat) : Bool :=
  (f.units.getD (index / 8) 0).getMsbD (index % 8)

def get (f : BitField) (index : Nat) : Except Error Bool :=
  if index < f.len then .ok (f.bit index) else .error (.outOfBounds index f.len)

/-- Make a bit `value`; past the last unit this does nothing. -/
def put (f : BitField) (index : Nat) (value : Bool) : BitField :=
  { f with units := f.units.modify (index / 8) fun unit =>
    if value then unit ||| place index else unit &&& ~~~place index }

def set (f : BitField) (index : Nat) (value : Bool) : Except Error BitField :=
  if index < f.len then .ok (f.put index value) else .error (.outOfBounds index f.len)

def clearBit (f : BitField) (index : Nat) : Except Error BitField := f.set index false

def clear (f : BitField) : BitField := { f with units := Array.replicate f.units.size 0 }

def unit (f : BitField) (index : Nat) : Except Error Byte :=
  match f.units[index]? with
  | some u => .ok u
  | none => .error (.outOfBounds index f.units.size)

/-- The places of unit `index` that belong to a field of `len` bits. -/
def unitMask (len index : Nat) : Byte := ~~~(0xFF#8 >>> min (len - 8 * index) 8)

/-- Replace a whole unit; what falls on left-over places is dropped. Past the last unit this does
nothing. -/
def putUnit (f : BitField) (index : Nat) (value : Byte) : BitField :=
  { f with units := f.units.modify index fun _ => value &&& unitMask f.len index }

def setUnit (f : BitField) (index : Nat) (value : Byte) : Except Error BitField :=
  if index < f.units.size then .ok (f.putUnit index value)
  else .error (.outOfBounds index f.units.size)

/-- Replace all units at once. -/
def loadBytes (f : BitField) (bytes : List Byte) : Except Error BitField :=
  if bytes.length = f.units.size then
    .ok { f with units := bytes.toArray.mapIdx fun i value => value &&& unitMask f.len i }
  else .error (.outOfBounds bytes.length f.units.size)

/-- The units as one number, the first unit at the top, modulo `2 ^ 64`. -/
def value (f : BitField) : Nat :=
  f.units.foldl (fun acc unit => (acc * 256 + unit.toNat) % 2 ^ (64 : Nat)) 0

/-- The field as an unsigned word of the narrowest width that holds it, its first bit on top. -/
def toWord (f : BitField) : Except Error Word :=
  match Width.fitting? f.len with
  | some width =>
    let shift := width.bits - 8 * f.units.size
    .ok ((Word.zero width false).setRaw (f.value % 2 ^ (32 : Nat) * 2 ^ shift))
  | none => .error (.unsupportedWidth f.len)

def bits (f : BitField) : List Bool := (List.range f.len).map f.bit

/-- The indexes of the set bits, in order. -/
def ones (f : BitField) : List Nat := (List.range f.len).filter f.bit

end BitField

end Microcontroller
