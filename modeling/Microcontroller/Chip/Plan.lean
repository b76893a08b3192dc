import Microcontroller.Chip.Alu
import Microcontroller.Chip.Storage
import Microcontroller.Isa.Decode
/-!
# What an instruction is going to do

`Plan.of` reads everything an instruction needs, checks everything it is going to write, and answers
with a plan: writes that are known to be in range, flags to set, and where to go on. It changes
nothing, so an instruction that faults here has had no effect.

Operands are found by kind and not by place. A table may have rows that lack an operand their
operation needs; such an instruction is illegal when that operand is asked for.
-/

namespace Microcontroller

-- Powers are those that the numbers come with.
attribute [local instance (2000)] instPowNat

/-- Where execution goes on after an instruction. -/
inductive Flow where
  | next
  | jump (target : Nat)
  /-- Go on at the next instruction, but not now: the program has ended. -/
  | stop
  deriving DecidableEq

/-- A change of storage, with its place known to exist. -/
inductive Write where
  | register (index value : Nat)
  | ram (address value : Nat)
  | stackPointer (value : Nat)
  | status (index : Nat) (value : Bool)
  | pin (index : Nat) (value : Bool)
  | pinGroup (index : Nat) (value : Byte)
  | analog (channel value : Nat)
  | mapped (channel value : Nat)
  deriving DecidableEq

def Storage.apply (s : Storage) : Write → Storage
  | .register index value => { s with registers := s.registers.put index value }
  | .ram address value => { s with memory.ram := s.memory.ram.put address value }
  | .stackPointer value => { s with sp := value }
  | .status index value => { s with status := s.status.put index value }
  | .pin index value => { s with io.digital := s.io.digital.put index value }
  | .pinGroup index value => { s with io.digital := s.io.digital.putUnit index value }
  | .analog channel value => { s with io.analog := s.io.analog.put channel value }
  | .mapped channel value => { s with io.mapped := s.io.mapped.put channel value }

structure Plan where
  writes : List Write
  /-- Flags to set after the writes, in this order. -/
  flags : List (Flag × Bool)
  flow : Flow
  deriving DecidableEq

namespace Plan

def nothing : Plan := ⟨[], [], .next⟩

def write (writes : List Write) : Plan := ⟨writes, [], .next⟩

def goTo (target : Nat) : Plan := ⟨[], [], .jump target⟩

variable (d : Decoded) (s : Storage)

/-! ### Operands -/

def illegal : Fault := .illegalInstruction s.ip d.instruction.opcode.toNat

/-- The cell of an operand the instruction cannot do without. -/
def cell (kind : OperandKind) : Except Fault Nat :=
  match d.operand? kind with
  | some cell => .ok cell
  | none => .error (illegal d s)

/-- An index into a region of `len` places. -/
def within (region : Region) (len index : Nat) : Except Fault Nat :=
  if index < len then .ok index else .error (.bounds s.ip region index len)

def registerIndex (kind : OperandKind) : Except Fault Nat := do
  within s .registers s.registers.size (← cell d s kind)

/-- The word in a register that is there. -/
def registerWord (index : Nat) : Nat := s.registers.raw.getD index 0

def register (kind : OperandKind) : Except Fault Nat := do
  return registerWord s (← registerIndex d s kind)

def ramWord (address : Nat) : Nat := s.memory.ram.raw.getD address 0

def immediate : Except Fault Nat := do
  return d.width.truncate (← cell d s .immediate)

/-- The second input of an operation: a register where the instruction has a source, else the
immediate. -/
def second : Except Fault Nat :=
  if d.has .source then register d s .source else immediate d s

/-- The registers of the pointer operand, low and high. -/
def pair : Except Fault (Nat × Nat) := do
  let cell ← cell d s .pointer
  match (Pointer.ofIndex? cell).bind (·.pair? s.registers.size) with
  | some pair => return pair
  | none => throw (.bounds s.ip .registers cell s.registers.size)

/-- The two words of a pair as one number. -/
def pairWord (pair : Nat × Nat) : Nat :=
  d.width.join (registerWord s pair.2) (registerWord s pair.1)

/-- A bit of a register, counted from the lowest. -/
def registerBit : Except Fault Nat := do
  within s .registers d.width.bits (← cell d s .bit)

/-- What a pointer holds, or the address operand; RAM may end before it. -/
def address : Except Fault Nat := do
  if d.has .pointer then return pairWord d s (← pair d s) else cell d s .address

def relative : Except Fault Nat :=
  match d.offset? with
  | some offset => .ok (d.width.wrap (s.ip + offset))
  | none => .error (illegal d s)

/-- An operand that is a register, or a pair of them, has to be there. A pair is that of the first
pointer operand. -/
def checkOperand (kind : OperandKind) (cell : Nat) : Except Fault Unit :=
  if kind.isRegister then (within s .registers s.registers.size cell).map fun _ => ()
  else if kind = .pointer then (pair d s).map fun _ => ()
  else .ok ()

def checkRegisters : Except Fault Unit :=
  d.fields.forM fun (kind, cell) => checkOperand d s kind cell

/-! ### Arithmetic -/

/-- The flags of an outcome that the instruction declares. -/
def declared (o : Alu.Outcome) : List (Flag × Bool) :=
  d.instruction.flags.filterMap fun f => (o.flag? f).map (f, ·)

def unary (f : Nat → Alu.Outcome) : Except Fault Plan := do
  let rd ← registerIndex d s .destination
  let o := f (registerWord s rd)
  return ⟨[.register rd o.value], declared d o, .next⟩

def binary (f : Nat → Nat → Alu.Outcome) : Except Fault Plan := do
  let rd ← registerIndex d s .destination
  let o := f (registerWord s rd) (← second d s)
  return ⟨[.register rd o.value], declared d o, .next⟩

/-- An operation of which only the flags are kept. -/
def comparison (f : Nat → Nat → Alu.Outcome) : Except Fault Plan := do
  let o := f (← register d s .destination) (← second d s)
  return ⟨[], declared d o, .next⟩

/-- An operation on a register pair and the immediate, in twice the width. -/
def onPair (f : Nat → Nat → Alu.Outcome) : Except Fault Plan := do
  let (low, high) ← pair d s
  let o := f (pairWord d s (low, high)) (← immediate d s)
  return ⟨[.register low (o.value % d.width.capacity), .register high (o.value / d.width.capacity)],
    declared d o, .next⟩

/-! ### Stack and I/O -/

/-- Move the stack pointer down and put a word where it points. -/
def push (value : Nat) : Except Fault (List Write) := do
  let sp ← within s .stack s.memory.ram.size (d.width.wrap ((s.sp : Int) - 1))
  return [.ram sp value, .stackPointer sp]

def top : Except Fault Nat := do
  return ramWord s (← within s .stack s.memory.ram.size s.sp)

def drop : Write := .stackPointer (d.width.wrap (s.sp + 1))

def unmapped (address : Nat) : Fault :=
  .bounds s.ip .io address (AddressMap.mappedBase + s.io.mapped.size)

def input (address : Nat) : Except Fault Nat :=
  match AddressMap.resolve address with
  | .digital group => do
    return (s.io.digital.units.getD (← within s .digital s.io.digital.units.size group) 0).toNat
  | .analog channel => do
    return s.io.analog.raw.getD (← within s .analog s.io.analog.size channel) 0
  | .stackPointer => .ok s.sp
  | .mapped channel => do
    return s.io.mapped.raw.getD (← within s .mapped s.io.mapped.size channel) 0
  | .reserved => .error (unmapped s address)

def output (address value : Nat) : Except Fault Write :=
  match AddressMap.resolve address with
  | .digital group => do
    return .pinGroup (← within s .digital s.io.digital.units.size group) (BitVec.ofNat 8 value)
  | .analog channel => do
    return .analog (← within s .analog s.io.analog.size channel) value
  | .stackPointer => .ok (.stackPointer (d.width.truncate value))
  | .mapped channel => do
    return .mapped (← within s .mapped s.io.mapped.size channel) value
  | .reserved => .error (unmapped s address)

/-! ### Single bits -/

def pin (value : Bool) : Except Fault Plan := do
  return write [.pin (← within s .digital s.io.digital.len (← cell d s .bit)) value]

def statusBit : Except Fault Nat := do
  within s .status s.status.len (← cell d s .flagBit)

def branch (wanted : Bool) : Except Fault Plan := do
  if s.status.bit (← statusBit d s) = wanted then return goTo (← relative d s) else return nothing

/-- `word` with one bit made `value`. -/
def withBit (word bit : Nat) (value : Bool) : Nat :=
  if word.testBit bit = value then word else word ^^^ 2 ^ bit

/-! ### The plan -/

def ofOperation (layout : FlagLayout) : Except Fault Plan :=
  let bits := d.width.bits
  match d.instruction.operation with
  | .nop => .ok nothing
  | .add => binary d s (Alu.add bits · · false)
  | .addWithCarry => binary d s (Alu.add bits · · (s.flag layout .carry))
  | .addWord => onPair d s (Alu.add (2 * bits) · · false)
  | .subtract => binary d s (Alu.sub bits · · false)
  | .subtractWithCarry => binary d s (Alu.sub bits · · (s.flag layout .carry))
  | .subtractWord => onPair d s (Alu.sub (2 * bits) · · false)
  | .increment => unary d s (Alu.add bits · 1 false)
  | .decrement => unary d s (Alu.sub bits · 1 false)
  | .negate => unary d s (Alu.negate bits)
  | .compare => comparison d s (Alu.sub bits · · false)
  | .and => binary d s fun a b => Alu.logic bits (a &&& b)
  | .or => binary d s fun a b => Alu.logic bits (a ||| b)
  | .xor => binary d s fun a b => Alu.logic bits (a ^^^ b)
  | .complement => unary d s (Alu.complement bits)
  | .shiftLeft => unary d s (Alu.shiftLeft bits)
  | .shiftRight => unary d s (Alu.shiftRight bits)
  | .arithmeticShiftRight => unary d s (Alu.arithmeticShiftRight bits)
  | .rotateRight => unary d s (Alu.rotateRight bits · (s.flag layout .carry))
  | .move => do
    let value ← second d s
    return write [.register (← registerIndex d s .destination) value]
  | .load => do
    let address ← within s .ram s.memory.ram.size (← address d s)
    return write [.register (← registerIndex d s .destination) (ramWord s address)]
  | .store => do
    let address ← address d s
    let value ← register d s .source
    return write [.ram (← within s .ram s.memory.ram.size address) value]
  | .push => do return write (← push d s (← register d s .source))
  | .pop => do
    let value ← top s
    return write [.register (← registerIndex d s .destination) value, drop d s]
  | .input => do
    let value ← input s (← cell d s .ioAddress)
    return write [.register (← registerIndex d s .destination) value]
  | .output => do
    let address ← cell d s .ioAddress
    return write [← output d s address (← register d s .source)]
  | .setPin => pin d s true
  | .clearPin => pin d s false
  | .setFlag => do return write [.status (← statusBit d s) true]
  | .clearFlag => do return write [.status (← statusBit d s) false]
  | .bitStore => do
    let bit ← registerBit d s
    let word ← register d s .destination
    return ⟨[], [(.transfer, word.testBit bit)], .next⟩
  | .bitLoad => do
    let bit ← registerBit d s
    let rd ← registerIndex d s .destination
    return write [.register rd (withBit (registerWord s rd) bit (s.flag layout .transfer))]
  | .branchIfSet => branch d s true
  | .branchIfClear => branch d s false
  | .jump => do
    if d.has .offset then return goTo (← relative d s) else return goTo (← cell d s .address)
  | .call => do
    let target ← cell d s .address
    return ⟨← push d s (d.width.wrap (s.ip + d.size)), [], .jump target⟩
  | .ret => do return ⟨[drop d s], [], .jump (← top s)⟩
  | .stop => .ok ⟨[], [], .stop⟩

/-- The plan of an instruction. A register operand that is out of range is found first, in the order
of the operands, whether or not the operation would use it. -/
def of (layout : FlagLayout) : Except Fault Plan := do
  checkRegisters d s
  ofOperation d s layout

end Plan

end Microcontroller
