import Microcontroller.Bits.Field
/-!
# Reading a field of bits from both ends

A cursor holds the stretch of a field that has not been read yet. It can be taken from at either
end, and the ends meet when every bit has been handed out once.
-/

namespace Microcontroller

structure BitCursor where
  field : BitField
  front : Nat
  back : Nat

namespace BitCursor

def start (f : BitField) : BitCursor := ⟨f, 0, f.len⟩

def remaining (c : BitCursor) : Nat := c.back - c.front

def next (c : BitCursor) : Option Bool × BitCursor :=
  if c.front < c.back then (some (c.field.bit c.front), { c with front := c.front + 1 })
  else (none, c)

def nextBack (c : BitCursor) : Option Bool × BitCursor :=
  if c.front < c.back then (some (c.field.bit (c.back - 1)), { c with back := c.back - 1 })
  else (none, c)

inductive Side where
  | front
  | back

def pull (c : BitCursor) : Side → Option Bool × BitCursor
  | .front => c.next
  | .back => c.nextBack

/-- What a series of pulls hands out, with the count of bits left after each. -/
def pulls (c : BitCursor) : List Side → List (Option Bool × Nat)
  | [] => []
  | side :: sides =>
    let (bit, c) := c.pull side
    (bit, c.remaining) :: c.pulls sides

end BitCursor

end Microcontroller
