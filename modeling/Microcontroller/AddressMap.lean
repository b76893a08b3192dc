/-!
# The I/O address map

I/O addresses are divided among the digital pins, which are addressed in groups of eight, the analog
channels, the stack pointer and the mapped channels. The division does not depend on how many of each
a chip has.
-/

namespace Microcontroller.AddressMap

/-- Pins of a group. -/
def groupPins : Nat := 8

/-- Addresses kept for groups of digital pins; they start at 0. -/
def pinGroups : Nat := 8

def analogBase : Nat := 8

/-- Addresses kept for analog channels. -/
def analogChannels : Nat := 8

def stackPointer : Nat := 0x1D

/-- The first mapped address; all above it are mapped too. -/
def mappedBase : Nat := 0x20

/-- The most digital pins a chip can have. -/
def digitalPins : Nat := pinGroups * groupPins

/-- What an I/O address names. -/
inductive Target where
  | digital (group : Nat)
  | analog (channel : Nat)
  | stackPointer
  | mapped (channel : Nat)
  | reserved
  deriving DecidableEq

def resolve (address : Nat) : Target :=
  if address < pinGroups then .digital address
  else if address < analogBase + analogChannels then .analog (address - analogBase)
  else if address = stackPointer then .stackPointer
  else if mappedBase ≤ address then .mapped (address - mappedBase)
  else .reserved

end Microcontroller.AddressMap
