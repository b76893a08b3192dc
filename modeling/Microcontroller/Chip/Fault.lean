import Microcontroller.AddressMap
import Microcontroller.Numeral
/-!
# Faults

Why an instruction could not be executed. A fault holds the address of the instruction and, where an
index was out of range, the storage it should have named and the size of that storage.
-/

namespace Microcontroller

/-- The kinds of storage an instruction can miss. -/
inductive Region where
  | registers
  | status
  | ram
  | rom
  | digital
  | analog
  | mapped
  | io
  | stack
  deriving DecidableEq

namespace Region

def all : List Region := [registers, status, ram, rom, digital, analog, mapped, io, stack]

def ordinal : Region → Nat
  | registers => 0
  | status => 1
  | ram => 2
  | rom => 3
  | digital => 4
  | analog => 5
  | mapped => 6
  | io => 7
  | stack => 8

def name : Region → String
  | registers => "registers"
  | status => "status"
  | ram => "ram"
  | rom => "rom"
  | digital => "digital"
  | analog => "analog"
  | mapped => "mapped"
  | io => "io"
  | stack => "stack"

def ofTarget : AddressMap.Target → Region
  | .digital _ => digital
  | .analog _ => analog
  | .mapped _ => mapped
  | .stackPointer | .reserved => io

end Region

inductive Fault where
  | illegalInstruction (ip opcode : Nat)
  | bounds (ip : Nat) (region : Region) (index len : Nat)
  deriving DecidableEq

namespace Fault

def ip : Fault → Nat
  | illegalInstruction ip _ => ip
  | bounds ip _ _ _ => ip

def message : Fault → String
  | illegalInstruction ip opcode =>
      "Illegal instruction " ++ Numeral.hex 2 opcode ++ " at " ++ Numeral.hex 4 ip
  | bounds ip region index len =>
      "Bounds fault at " ++ Numeral.hex 4 ip ++ ": " ++ region.name ++ " index "
        ++ Numeral.decimal index ++ " out of range (size " ++ Numeral.decimal len ++ ")"

end Fault

end Microcontroller
