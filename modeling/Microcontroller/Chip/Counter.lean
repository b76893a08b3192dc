import Microcontroller.Chip.Host
/-!
# Where the counters end

The cycle counter and the number of boots are numbers of 64 bits, and nothing looks for room in them
before something is counted. Where there is none the addition overflows, and that breaks off whatever
was going on: it is no fault of the chip and no answer to the host, and there is no chip to go on with.

`Chip.cycle`, `Chip.run` and `Chip.perform` count as if there were no end. The names with a question
mark are what a chip comes to that has counters of 64 bits.
-/

namespace Microcontroller

-- Powers are those that the numbers come with, which takes an exponent of a known type.
attribute [local instance (2000)] instPowNat

/-- A counter has no room for what is to be counted. -/
inductive Overflow where
  | cycles
  | boots
  deriving DecidableEq

namespace Chip

/-- A cycle. One that is executed is counted, and one that faults is not. -/
def cycle? (c : Chip) : Except Overflow (Except Fault Flow × Chip) :=
  match c.cycle with
  | (.ok flow, c) => if c.storage.cycles < 2 ^ (64 : Nat) then .ok (.ok flow, c) else .error .cycles
  | (.error fault, c) => .ok (.error fault, c)

def runFrom? (done : Nat) : Nat → Chip → Except Overflow (RunSummary × Chip)
  | 0, c => .ok (⟨done, .limit⟩, c)
  | limit + 1, c => do
    match ← c.cycle? with
    | (.ok .stop, c) => return (⟨done + 1, .program⟩, c)
    | (.ok .next, c) => runFrom? (done + 1) limit c
    | (.ok (.jump _), c) => runFrom? (done + 1) limit c
    | (.error fault, c) => return (⟨done + 1, .fault fault⟩, c)

def run? (c : Chip) (limit : Nat) : Except Overflow (RunSummary × Chip) := runFrom? 0 limit c

def boot? (c : Chip) : Except Overflow (Except ChipError Chip) :=
  match c.boot with
  | .ok c => if c.boots < 2 ^ (64 : Nat) then .ok (.ok c) else .error .boots
  | .error e => .ok (.error e)

/-- The chip after a call. The calls that are left to `Chip.perform` count nothing. -/
def perform? (c : Chip) : HostCall → Except Overflow Chip
  | .boot => do return (← c.boot?).toOption.getD c
  | .cycle => do return (← c.cycle?).2
  | .run limit => do return (← c.run? limit).2
  | call => .ok (c.perform call)

end Chip

end Microcontroller
