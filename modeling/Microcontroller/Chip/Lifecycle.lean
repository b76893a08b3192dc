/-!
# The life of a chip

A chip is constructed, then booted, then halted, and booted again from there. What it does about a
fault, apart from halting, is a matter of policy.
-/

namespace Microcontroller

inductive Lifecycle where
  | constructed
  | booted
  | halted
  deriving DecidableEq

namespace Lifecycle

def all : List Lifecycle := [constructed, booted, halted]

def ordinal : Lifecycle → Nat
  | constructed => 0
  | booted => 1
  | halted => 2

end Lifecycle

/-- Where a fault leaves the instruction pointer. -/
inductive FaultPolicy where
  /-- At the faulting instruction. -/
  | halt
  /-- After it. -/
  | skip
  deriving DecidableEq

end Microcontroller
