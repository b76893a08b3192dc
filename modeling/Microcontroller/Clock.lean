import Microcontroller.Config
/-!
# The clock of a driver

A driver runs one cycle when its deadline has come, and then sets the next deadline. Times are in
nanoseconds. A tick that was missed because the cycle took too long, or came too late, is dropped.
-/

namespace Microcontroller

/-- A cycle of a driver in time: when it begins, and when it has been run. -/
structure TimedCycle where
  start : Nat
  done : Nat

namespace Config

/-- The first cycle of a driver is run one tick after its start. -/
def firstDeadline (c : Config) (now : Nat) : Nat := now + c.tickNanos

/-- The deadline after one whose cycle has been run by now. -/
def nextDeadline (c : Config) (deadline now : Nat) : Nat :=
  let next := deadline + c.tickNanos
  if next ≤ now then now + c.tickNanos else next

/-- The cycles that a driver can run from a deadline on: none before its deadline has come. -/
inductive Paced (c : Config) : Nat → List TimedCycle → Prop where
  | stop (deadline : Nat) : Paced c deadline []
  | cycle {deadline : Nat} {cycle : TimedCycle} {rest : List TimedCycle}
      (due : deadline ≤ cycle.start) (takes : cycle.start ≤ cycle.done)
      (next : Paced c (c.nextDeadline deadline cycle.done) rest) : Paced c deadline (cycle :: rest)

end Config

end Microcontroller
