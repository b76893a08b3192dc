import Microcontroller.Error
import Microcontroller.Word.Basic
/-!
# Rows of machine words

Registers, memories and I/O channels are rows of words of one width and one reading. Only patterns
are stored. Every checked change of a cell goes through `update`, so all of them have the same
condition and the same error, and touch one cell.
-/

namespace Microcontroller

-- Powers are those that the numbers come with, which takes an exponent of a known type.
attribute [local instance (2000)] instPowNat

structure Cells where
  width : Width
  signed : Bool
  raw : Array Nat
  deriving DecidableEq

namespace Cells

def zero (width : Width) (signed : Bool) (len : Nat) : Cells :=
  ⟨width, signed, Array.replicate len 0⟩

def size (c : Cells) : Nat := c.raw.size

def isEmpty (c : Cells) : Bool := c.size == 0

def raw? (c : Cells) (index : Nat) : Except Error Nat :=
  match c.raw[index]? with
  | some r => .ok r
  | none => .error (.outOfBounds index c.size)

/-- The cell at `index` as a word of its own. -/
def word? (c : Cells) (index : Nat) : Except Error Word := do
  return ⟨c.width, c.signed, ← c.raw? index⟩

/-- Put a pattern at `index`; past the end this does nothing. -/
def put (c : Cells) (index r : Nat) : Cells :=
  { c with raw := c.raw.modify index fun _ => c.width.truncate r }

/-- Replace the pattern at `index` by what `f` makes of it. -/
def update (c : Cells) (index : Nat) (f : Nat → Nat) : Except Error Cells :=
  if index < c.size then .ok { c with raw := c.raw.modify index f }
  else .error (.outOfBounds index c.size)

def set (c : Cells) (index : Nat) (v : Int) : Except Error Cells :=
  c.update index fun _ => c.width.wrap v

def setRaw (c : Cells) (index r : Nat) : Except Error Cells :=
  c.update index fun _ => c.width.truncate r

def setHigh (c : Cells) (index v : Nat) : Except Error Cells :=
  c.update index (c.width.withHigh · v)

def setLow (c : Cells) (index v : Nat) : Except Error Cells :=
  c.update index (c.width.withLow · v)

def clearAt (c : Cells) (index : Nat) : Except Error Cells :=
  c.update index fun _ => 0

def clear (c : Cells) : Cells := { c with raw := Array.replicate c.size 0 }

/-- Put `data` at `offset` and after, all of it or nothing. The error names the last cell that was
asked for; indexes are 64-bit, and a sum past the last of them stands for it. -/
def load (c : Cells) (offset : Nat) (data : List Nat) : Except Error Cells :=
  let data := data.toArray
  if offset + data.size ≤ c.size then
    .ok { c with raw := c.raw.mapIdx fun i old =>
      if i < offset then old else (data[i - offset]?.map c.width.truncate).getD old }
  else .error (.outOfBounds (min (offset + data.size) (2 ^ (64 : Nat) - 1) - 1) c.size)

def values (c : Cells) : List Int := c.raw.toList.map (c.width.value c.signed)

end Cells

end Microcontroller
