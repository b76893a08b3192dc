import Microcontroller.Chip.Basic
/-!
# Host calls

The calls a host can make on a chip, as data, so that what a host does over time is a list of calls.
-/

namespace Microcontroller

inductive HostCall where
  | boot
  | halt
  | reset
  | cycle
  | run (limit : Nat)
  | loadProgram (offset : Nat) (cells : List Nat)
  | loadRam (offset : Nat) (cells : List Nat)
  | setRegister (index : Nat) (value : Int)
  | setFlag (flag : Flag) (value : Bool)
  | setStackPointer (sp : Nat)
  | setInstructionPointer (ip : Nat)
  | setPin (index : Nat) (value : Bool)
  | setAnalog (channel value : Nat)
  | setMapped (channel value : Nat)
  | writeIo (target : AddressMap.Target) (value : Nat)
  | loadIo (digital : List Byte) (analog mapped : List Nat)
  | clearIo
  | clearFault

namespace Chip

/-- The chip after a call; one that is refused leaves it as it was. -/
def perform (c : Chip) : HostCall → Chip
  | .boot => c.boot.toOption.getD c
  | .halt => c.halt
  | .reset => c.reset
  | .cycle => c.cycle.2
  | .run limit => (c.run limit).2
  | .loadProgram offset cells => (c.loadProgram offset cells).toOption.getD c
  | .loadRam offset cells => (c.loadRam offset cells).toOption.getD c
  | .setRegister index value => (c.setRegister index value).toOption.getD c
  | .setFlag f value => c.setFlag f value
  | .setStackPointer sp => c.setStackPointer sp
  | .setInstructionPointer ip => c.setInstructionPointer ip
  | .setPin index value => (c.withIo (·.setPin index value)).toOption.getD c
  | .setAnalog channel value => (c.withIo (·.setAnalog channel value)).toOption.getD c
  | .setMapped channel value => (c.withIo (·.setMapped channel value)).toOption.getD c
  | .writeIo target value =>
    (c.withIo fun io => (io.write target value).getD (.ok io)).toOption.getD c
  | .loadIo digital analog mapped =>
    (c.withIo (·.load digital analog mapped)).toOption.getD c
  | .clearIo => (c.withIo fun io => .ok io.clear).toOption.getD c
  | .clearFault => c.clearFault

end Chip

end Microcontroller
