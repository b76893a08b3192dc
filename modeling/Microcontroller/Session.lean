import Microcontroller.Chip.Host
/-!
# Driving a shared chip

A session is one chip shared by a host and any number of drivers. A driver boots the chip and then
executes one cycle per tick of the clock, until the program ends, a fault occurs, or it is told to
stop. A later boot belongs to another driver: the number of boots at a driver's start is its run,
and a driver whose run is not the chip's number of boots has nothing more to do.

Host and drivers interleave. The steps here are as small as what they do under the lock on the chip,
or to the stop flag of a driver, so every interleaving is a sequence of steps.
-/

namespace Microcontroller

/-- What the thread of a driver is doing. -/
inductive DriverPhase where
  /-- Waiting for its next tick. -/
  | waiting
  /-- Its tick has come, and it wants the chip. -/
  | due
  /-- At its end, with the fault that brought it there, if one did. -/
  | ended (fault : Option Fault)
  deriving DecidableEq

structure Driver where
  /-- The number of boots at its start, of which there are fewer than `2 ^ 64`. -/
  run : Nat
  /-- Whether it has been told to stop. -/
  stop : Bool
  phase : DriverPhase
  /-- The fault it ended with, once it has been waited for. -/
  fault : Option Fault
  deriving DecidableEq

namespace Driver

def start (run : Nat) : Driver := ⟨run, false, .waiting, none⟩

def hasEnded (d : Driver) : Bool :=
  match d.phase with
  | .ended _ => true
  | .waiting | .due => false

/-- Look at the stop flag; otherwise the tick has come. -/
def poll (d : Driver) : Driver :=
  match d.phase with
  | .waiting => { d with phase := if d.stop then .ended none else .due }
  | .due | .ended _ => d

/-- Use the chip for one cycle, if the tick has come and the driver is still the one to do so. -/
def useChip (d : Driver) (c : Chip) : Driver × Chip :=
  match d.phase with
  | .due =>
    if d.stop || !c.isBooted || c.boots != d.run then ({ d with phase := .ended none }, c)
    else
      match c.cycle with
      | (.error fault, c) => ({ d with phase := .ended (some fault) }, c)
      | (.ok _, c) => ({ d with phase := if c.isBooted then .waiting else .ended none }, c)
  | .waiting | .ended _ => (d, c)

/-- Take note of the fault of a driver at its end. -/
def join (d : Driver) : Driver :=
  match d.phase with
  | .ended (some fault) => { d with fault := some fault }
  | .ended none | .waiting | .due => d

def tellToStop (d : Driver) : Driver := { d with stop := true }

/-- Halt the chip, unless it has been booted again since. -/
def release (d : Driver) (c : Chip) : Chip := if c.boots = d.run then c.halt else c

end Driver

structure Session where
  chip : Chip
  /-- The drivers in the order of their start. -/
  drivers : Array Driver

namespace Session

def ofChip (chip : Chip) : Session := ⟨chip, #[]⟩

/-- Boot the chip and start a driver, whose number is returned. -/
def start (s : Session) : Except ChipError (Nat × Session) := do
  let chip ← s.chip.boot
  return (s.drivers.size, ⟨chip, s.drivers.push (Driver.start chip.boots)⟩)

/-- What can happen next in a session. -/
inductive Step where
  /-- A call of the host on the chip. -/
  | host (call : HostCall)
  | start
  | poll (driver : Nat)
  | useChip (driver : Nat)
  | tellToStop (driver : Nat)
  /-- The host has seen a driver end. -/
  | join (driver : Nat)
  /-- The host halts the chip on behalf of a driver that it has seen end. -/
  | release (driver : Nat)

def onDriver (s : Session) (driver : Nat) (f : Driver → Driver) : Session :=
  { s with drivers := s.drivers.modify driver f }

/-- A step; one that names no driver, or boots a chip that is booted, changes nothing. -/
def step (s : Session) : Step → Session
  | .host call => { s with chip := s.chip.perform call }
  | .start =>
    match s.start with
    | .ok (_, s) => s
    | .error _ => s
  | .poll driver => s.onDriver driver Driver.poll
  | .useChip driver =>
    match s.drivers[driver]? with
    | none => s
    | some d =>
      let (d, chip) := d.useChip s.chip
      ⟨chip, s.drivers.modify driver fun _ => d⟩
  | .tellToStop driver => s.onDriver driver Driver.tellToStop
  | .join driver => s.onDriver driver Driver.join
  | .release driver =>
    match s.drivers[driver]? with
    | none => s
    | some d => { s with chip := if d.hasEnded then d.release s.chip else s.chip }

/-- One round of a driver: wait for the tick, then use the chip. -/
def tick (s : Session) (driver : Nat) : Session := (s.step (.poll driver)).step (.useChip driver)

def hasEnded (s : Session) (driver : Nat) : Bool :=
  (s.drivers[driver]?.map Driver.hasEnded).getD true

def fault? (s : Session) (driver : Nat) : Option Fault := s.drivers[driver]?.bind Driver.fault

/-- Stop a driver and halt the chip. A driver that has been told to stop ends at its next round,
before it uses the chip. -/
def halt (s : Session) (driver : Nat) : Session :=
  ((((s.step (.tellToStop driver)).tick driver).step (.join driver)).step (.release driver))

end Session

end Microcontroller
