import Microcontroller.Proofs.Chip.Layout
import Microcontroller.Proofs.Chip.Plan
import Microcontroller.Proofs.Unguarded.Alu
import Microcontroller.Proofs.Unguarded.Bits
/-!
# Planning without guards

Planning reads registers, RAM and the banks where it has checked that they go that far, but once it
has it reads without another look. It puts two words together by shifting one of them up by a word,
which has to leave them both inside 64 bits, and it gets at single bits by shifting by a number that
the program names. The checks stand in the same places as in `Plan.of`; what they refuse is refused
here, and what they let through takes no misstep.
-/

namespace Microcontroller

open Unguarded

/-- The value of a flag, false where the status register has no room for it. -/
def Storage.flag! (s : Storage) (layout : FlagLayout) (f : Flag) : Unguarded Bool := do
  let index ← layout.index! f
  match ← settled (s.status.get! index) with
  | .ok value => return value
  | .error _ => return false

theorem Storage.flag!_eq {s : Storage} {bits : Nat} (h : s.status.Tidy bits) (layout : FlagLayout)
    (f : Flag) : s.flag! layout f = .ok (s.flag layout f) := by
  rw [flag!, bind_eq (layout.index!_eq f), bind_eq (settled_eq (h.get!_eq _)), flag, BitField.get]
  by_cases hroom : layout.index f < s.status.len
  · rw [if_pos hroom]
    simp only [hroom, decide_true, Bool.true_and]
    rfl
  · rw [if_neg hroom]
    simp only [hroom, decide_false, Bool.false_and]
    rfl

namespace Plan

section

variable (d : Decoded) (s : Storage)

/-! ### Operands -/

def cell! (kind : OperandKind) : Refusable Fault Nat := do
  match ← d.operand! kind with
  | some cell => return cell
  | none => checked (.error (illegal d s))

def registerIndex! (kind : OperandKind) : Refusable Fault Nat := do
  checked (within s .registers s.registers.size (← cell! d s kind))

def register! (kind : OperandKind) : Refusable Fault Nat := do
  let rd ← registerIndex! d s kind
  readAt s.registers.raw rd

def immediate! : Refusable Fault Nat := do
  let cell ← cell! d s .immediate
  Alu.cut! d.width.bits cell

def second! : Refusable Fault Nat :=
  if d.has .source then register! d s .source else immediate! d s

def pair! : Refusable Fault (Nat × Nat) := do
  let cell ← cell! d s .pointer
  let missing : Except Fault (Nat × Nat) :=
    .error (.bounds s.ip .registers cell s.registers.size)
  match Pointer.ofIndex? cell with
  | none => checked missing
  | some p =>
    match ← p.pair! s.registers.size with
    | none => checked missing
    | some pair => return pair

/-- The two words of a pair as one number: the high one is moved up by a word. -/
def pairWord! (pair : Nat × Nat) : Unguarded Nat := do
  let high ← readAt s.registers.raw pair.2
  let low ← readAt s.registers.raw pair.1
  return (← shiftLeft 64 high d.width.bits) ||| low

def registerBit! : Refusable Fault Nat := do
  checked (within s .registers d.width.bits (← cell! d s .bit))

def address! : Refusable Fault Nat := do
  if d.has .pointer then
    let pair ← pair! d s
    pairWord! d s pair
  else cell! d s .address

def relative! : Refusable Fault Nat := do
  match ← d.offset! with
  | some offset => return d.width.wrap (s.ip + offset)
  | none => checked (.error (illegal d s))

def checkOperand! (kind : OperandKind) (cell : Nat) : Refusable Fault Unit :=
  if kind.isRegister then checked ((within s .registers s.registers.size cell).map fun _ => ())
  else if kind = .pointer then do
    let _ ← pair! d s
    return ()
  else .ok ()

def checkRegisters! : Refusable Fault Unit :=
  d.fields.forM fun (kind, cell) => checkOperand! d s kind cell

/-! ### Arithmetic -/

def declared! (o : Alu.Outcome) : Unguarded (List (Flag × Bool)) := do
  let values ← d.instruction.flags.mapM fun f => do return (← o.flag! f).map (f, ·)
  return values.filterMap id

def unary! (f : Nat → Unguarded Alu.Outcome) : Refusable Fault Plan := do
  let rd ← registerIndex! d s .destination
  let o ← f (← readAt s.registers.raw rd)
  return ⟨[.register rd o.value], ← declared! d o, .next⟩

def binary! (f : Nat → Nat → Unguarded Alu.Outcome) : Refusable Fault Plan := do
  let rd ← registerIndex! d s .destination
  let a ← readAt s.registers.raw rd
  let b ← second! d s
  let o ← f a b
  return ⟨[.register rd o.value], ← declared! d o, .next⟩

def comparison! (f : Nat → Nat → Unguarded Alu.Outcome) : Refusable Fault Plan := do
  let a ← register! d s .destination
  let b ← second! d s
  let o ← f a b
  return ⟨[], ← declared! d o, .next⟩

def onPair! (f : Nat → Nat → Unguarded Alu.Outcome) : Refusable Fault Plan := do
  let pair ← pair! d s
  let a ← pairWord! d s pair
  let b ← immediate! d s
  let o ← f a b
  let low ← Alu.cut! d.width.bits o.value
  let high ← shiftRight 64 o.value d.width.bits
  return ⟨[.register pair.1 low, .register pair.2 high], ← declared! d o, .next⟩

/-! ### Stack and I/O -/

def top! : Refusable Fault Nat := do
  let sp ← checked (within s .stack s.memory.ram.size s.sp)
  readAt s.memory.ram.raw sp

def input! (address : Nat) : Refusable Fault Nat := do
  match ← AddressMap.resolve! address with
  | .digital group =>
    let group ← checked (within s .digital s.io.digital.units.size group)
    return (← readAt s.io.digital.units group).toNat
  | .analog channel =>
    let channel ← checked (within s .analog s.io.analog.size channel)
    readAt s.io.analog.raw channel
  | .stackPointer => return s.sp
  | .mapped channel =>
    let channel ← checked (within s .mapped s.io.mapped.size channel)
    readAt s.io.mapped.raw channel
  | .reserved => checked (.error (unmapped s address))

def output! (address value : Nat) : Refusable Fault Write := do
  match ← AddressMap.resolve! address with
  | .digital group =>
    return .pinGroup (← checked (within s .digital s.io.digital.units.size group))
      (BitVec.ofNat 8 value)
  | .analog channel => return .analog (← checked (within s .analog s.io.analog.size channel)) value
  | .stackPointer => return .stackPointer (d.width.truncate value)
  | .mapped channel => return .mapped (← checked (within s .mapped s.io.mapped.size channel)) value
  | .reserved => checked (.error (unmapped s address))

/-! ### Single bits -/

def pin! (value : Bool) : Refusable Fault Plan := do
  return write [.pin (← checked (within s .digital s.io.digital.len (← cell! d s .bit))) value]

def statusBit! : Refusable Fault Nat := do
  checked (within s .status s.status.len (← cell! d s .flagBit))

def branch! (wanted : Bool) : Refusable Fault Plan := do
  let bit ← statusBit! d s
  if (← s.status.bit! bit) = wanted then return goTo (← relative! d s) else return nothing

/-- A bit of a word, moved down to the lowest place. -/
def testBit! (word bit : Nat) : Unguarded Bool := do return 1 &&& (← shiftRight 64 word bit) != 0

/-- A word with one bit made `value`, by way of the number whose only one is in its place. -/
def withBit! (word bit : Nat) (value : Bool) : Unguarded Nat := do
  let one ← shiftLeft 64 1 bit
  return if value then word ||| one else word ^^^ (word &&& one)

/-! ### The plan -/

def ofOperation! (layout : FlagLayout) : Refusable Fault Plan :=
  let bits := d.width.bits
  match d.instruction.operation with
  | .nop => .ok nothing
  | .add => binary! d s (Alu.add! bits · · false)
  | .addWithCarry => do
    let carry ← s.flag! layout .carry
    binary! d s (Alu.add! bits · · carry)
  | .addWord => onPair! d s (Alu.add! (2 * bits) · · false)
  | .subtract => binary! d s (Alu.sub! bits · · false)
  | .subtractWithCarry => do
    let carry ← s.flag! layout .carry
    binary! d s (Alu.sub! bits · · carry)
  | .subtractWord => onPair! d s (Alu.sub! (2 * bits) · · false)
  | .increment => unary! d s (Alu.add! bits · 1 false)
  | .decrement => unary! d s (Alu.sub! bits · 1 false)
  | .negate => unary! d s (Alu.negate! bits)
  | .compare => comparison! d s (Alu.sub! bits · · false)
  | .and => binary! d s fun a b => Alu.logic! bits (a &&& b)
  | .or => binary! d s fun a b => Alu.logic! bits (a ||| b)
  | .xor => binary! d s fun a b => Alu.logic! bits (a ^^^ b)
  | .complement => unary! d s (Alu.complement! bits)
  | .shiftLeft => unary! d s (Alu.shiftLeft! bits)
  | .shiftRight => unary! d s (Alu.shiftRight! bits)
  | .arithmeticShiftRight => unary! d s (Alu.arithmeticShiftRight! bits)
  | .rotateRight => do
    let carry ← s.flag! layout .carry
    unary! d s (Alu.rotateRight! bits · carry)
  | .move => do
    let value ← second! d s
    return write [.register (← registerIndex! d s .destination) value]
  | .load => do
    let address ← checked (within s .ram s.memory.ram.size (← address! d s))
    let value ← readAt s.memory.ram.raw address
    return write [.register (← registerIndex! d s .destination) value]
  | .store => do
    let address ← address! d s
    let value ← register! d s .source
    return write [.ram (← checked (within s .ram s.memory.ram.size address)) value]
  | .push => do return write (← checked (push d s (← register! d s .source)))
  | .pop => do
    let value ← top! s
    return write [.register (← registerIndex! d s .destination) value, drop d s]
  | .input => do
    let value ← input! s (← cell! d s .ioAddress)
    return write [.register (← registerIndex! d s .destination) value]
  | .output => do
    let address ← cell! d s .ioAddress
    return write [← output! d s address (← register! d s .source)]
  | .setPin => pin! d s true
  | .clearPin => pin! d s false
  | .setFlag => do return write [.status (← statusBit! d s) true]
  | .clearFlag => do return write [.status (← statusBit! d s) false]
  | .bitStore => do
    let bit ← registerBit! d s
    let word ← register! d s .destination
    return ⟨[], [(.transfer, ← testBit! word bit)], .next⟩
  | .bitLoad => do
    let bit ← registerBit! d s
    let rd ← registerIndex! d s .destination
    let word ← readAt s.registers.raw rd
    let value ← s.flag! layout .transfer
    return write [.register rd (← withBit! word bit value)]
  | .branchIfSet => branch! d s true
  | .branchIfClear => branch! d s false
  | .jump => do
    if d.has .offset then return goTo (← relative! d s) else return goTo (← cell! d s .address)
  | .call => do
    let target ← cell! d s .address
    return ⟨← checked (push d s (d.width.wrap (s.ip + d.size))), [], .jump target⟩
  | .ret => do return ⟨[drop d s], [], .jump (← top! s)⟩
  | .stop => .ok ⟨[], [], .stop⟩

def of! (layout : FlagLayout) : Refusable Fault Plan := do
  checkRegisters! d s
  ofOperation! d s layout

end

/-! ### No missteps -/

/-- What planning counts on: a cell for each operand, words in the registers, and a unit for each bit of
the status register. -/
structure Ready (d : Decoded) (s : Storage) : Prop where
  whole : d.Whole
  word_lt : ∀ i, registerWord s i < d.width.capacity
  status : s.status.Tidy s.status.len

variable {d : Decoded} {s : Storage}

namespace Ready

variable (h : Ready d s)

include h

theorem cell!_eq (kind : OperandKind) : cell! d s kind = checked (cell d s kind) := by
  rw [cell!, lift_bind_eq (h.whole.operand!_eq kind), cell]
  cases d.operand? kind <;> rfl

theorem registerIndex!_eq (kind : OperandKind) :
    registerIndex! d s kind = checked (registerIndex d s kind) := by
  rw [registerIndex!, registerIndex]
  exact checked_bind (h.cell!_eq kind) fun _ _ => rfl

theorem register!_eq (kind : OperandKind) : register! d s kind = checked (register d s kind) := by
  rw [register!, register]
  refine checked_bind (h.registerIndex!_eq kind) fun rd hrd => ?_
  exact lift_eq (readAt_getD (registerIndex_ok_iff.1 hrd).2 0)

theorem immediate!_eq : immediate! d s = checked (immediate d s) := by
  rw [immediate!, immediate]
  exact checked_bind (h.cell!_eq .immediate) fun cell _ => lift_eq (Alu.cut!_eq d.width.bits_le_64 cell)

theorem second!_eq : second! d s = checked (second d s) := by
  rw [second!, second]
  split
  · exact h.register!_eq .source
  · exact h.immediate!_eq

theorem pair!_eq : pair! d s = checked (pair d s) := by
  rw [pair!, pair]
  refine checked_bind (h.cell!_eq .pointer) fun cell _ => ?_
  cases Pointer.ofIndex? cell with
  | none => rfl
  | some p =>
    dsimp only
    rw [lift_bind_eq (p.pair!_eq s.registers.size), Option.bind_some]
    cases p.pair? s.registers.size <;> rfl

theorem pairWord!_eq {p : Nat × Nat} (hp : pair d s = .ok p) :
    pairWord! d s p = .ok (pairWord d s p) := by
  obtain ⟨hlow, hhigh⟩ := pair_lt hp
  have hlow_lt := h.word_lt p.1
  have hmoved : registerWord s p.2 * 2 ^ d.width.bits < 2 ^ 64 :=
    Nat.lt_of_le_of_lt (Nat.le_add_right ..) (Width.join_lt (h.word_lt p.2) hlow_lt)
  have hbits : d.width.bits < 64 := Nat.lt_of_le_of_lt d.width.bits_le (by decide)
  rw [pairWord!, bind_eq (readAt_getD hhigh 0), bind_eq (readAt_getD hlow 0),
    bind_eq (shiftLeft_eq hbits _), pairWord, Width.join]
  rw [registerWord] at hmoved hlow_lt
  rw [Nat.mod_eq_of_lt hmoved, Nat.mul_comm, ← Nat.two_pow_add_eq_or_of_lt hlow_lt, Nat.mul_comm]
  rfl

theorem registerBit!_eq : registerBit! d s = checked (registerBit d s) := by
  rw [registerBit!, registerBit]
  exact checked_bind (h.cell!_eq .bit) fun _ _ => rfl

theorem address!_eq : address! d s = checked (address d s) := by
  rw [address!, address]
  split
  · exact checked_bind h.pair!_eq fun _ hp => lift_eq (h.pairWord!_eq hp)
  · exact h.cell!_eq .address

theorem relative!_eq : relative! d s = checked (relative d s) := by
  rw [relative!, lift_bind_eq h.whole.offset!_eq, relative]
  cases d.offset? <;> rfl

theorem checkOperand!_eq (kind : OperandKind) (cell : Nat) :
    checkOperand! d s kind cell = checked (checkOperand d s kind cell) := by
  rw [checkOperand!, checkOperand]
  split
  · rfl
  split
  · rw [h.pair!_eq]
    cases pair d s <;> rfl
  · rfl

theorem checkRegisters!_eq : checkRegisters! d s = checked (checkRegisters d s) :=
  checked_forM fun field _ => h.checkOperand!_eq field.1 field.2

/-! Arithmetic, for operations that are known to take no misstep -/

omit h in
theorem declared!_eq (o : Alu.Outcome) : declared! d o = .ok (declared d o) := by
  have hflag (f : Flag) : (do return (← o.flag! f).map (f, ·)) =
      (.ok ((o.flag? f).map (f, ·)) : Unguarded (Option (Flag × Bool))) := by
    rw [bind_eq (o.flag!_eq f)]
    rfl
  rw [declared!, bind_eq (mapM_eq fun f _ => hflag f), declared, List.filterMap_map]
  rfl

theorem unary!_eq {f : Nat → Unguarded Alu.Outcome} {g : Nat → Alu.Outcome}
    (hf : ∀ a, f a = .ok (g a)) : unary! d s f = checked (unary d s g) := by
  rw [unary!, unary]
  refine checked_bind (h.registerIndex!_eq .destination) fun rd hrd => ?_
  rw [lift_bind_eq (readAt_getD (registerIndex_ok_iff.1 hrd).2 0), lift_bind_eq (hf _),
    lift_bind_eq (declared!_eq _)]
  rfl

variable {f : Nat → Nat → Unguarded Alu.Outcome} {g : Nat → Nat → Alu.Outcome}

theorem binary!_eq (hf : ∀ a b, f a b = .ok (g a b)) : binary! d s f = checked (binary d s g) := by
  rw [binary!, binary]
  refine checked_bind (h.registerIndex!_eq .destination) fun rd hrd => ?_
  rw [lift_bind_eq (readAt_getD (registerIndex_ok_iff.1 hrd).2 0)]
  refine checked_bind h.second!_eq fun b _ => ?_
  rw [lift_bind_eq (hf _ _), lift_bind_eq (declared!_eq _)]
  rfl

theorem comparison!_eq (hf : ∀ a b, f a b = .ok (g a b)) :
    comparison! d s f = checked (comparison d s g) := by
  rw [comparison!, comparison]
  refine checked_bind (h.register!_eq .destination) fun a _ => ?_
  refine checked_bind h.second!_eq fun b _ => ?_
  rw [lift_bind_eq (hf _ _), lift_bind_eq (declared!_eq _)]
  rfl

theorem onPair!_eq (hf : ∀ a b, f a b = .ok (g a b)) : onPair! d s f = checked (onPair d s g) := by
  have hbits : d.width.bits < 64 := Nat.lt_of_le_of_lt d.width.bits_le (by decide)
  rw [onPair!, onPair]
  refine checked_bind h.pair!_eq fun p hp => ?_
  rw [lift_bind_eq (h.pairWord!_eq hp)]
  refine checked_bind h.immediate!_eq fun b _ => ?_
  rw [lift_bind_eq (hf _ _), lift_bind_eq (Alu.cut!_eq d.width.bits_le_64 _),
    lift_bind_eq (shiftRight_eq hbits _), lift_bind_eq (declared!_eq _)]
  rfl

/-! Stack and I/O -/

omit h in
theorem top!_eq : top! s = checked (top s) := by
  rw [top!, top]
  refine checked_bind rfl fun sp hsp => ?_
  obtain ⟨hlt, rfl⟩ := within_ok_iff.1 hsp
  exact lift_eq (readAt_getD hlt 0)

omit h in
theorem input!_eq (address : Nat) : input! s address = checked (input s address) := by
  rw [input!, lift_bind_eq (AddressMap.resolve!_eq address), input]
  cases AddressMap.resolve address with
  | digital group =>
    refine checked_bind rfl fun i hi => ?_
    obtain ⟨hlt, rfl⟩ := within_ok_iff.1 hi
    rw [lift_bind_eq (readAt_getD hlt 0)]
    rfl
  | analog channel | mapped channel =>
    refine checked_bind rfl fun i hi => ?_
    obtain ⟨hlt, rfl⟩ := within_ok_iff.1 hi
    exact lift_eq (readAt_getD hlt 0)
  | stackPointer | reserved => rfl

omit h in
theorem output!_eq (address value : Nat) :
    output! d s address value = checked (output d s address value) := by
  rw [output!, lift_bind_eq (AddressMap.resolve!_eq address), output]
  cases AddressMap.resolve address with
  | digital group | analog channel | mapped channel => exact checked_bind rfl fun _ _ => rfl
  | stackPointer | reserved => rfl

/-! Single bits -/

theorem pin!_eq (value : Bool) : pin! d s value = checked (pin d s value) := by
  rw [pin!, pin]
  refine checked_bind (h.cell!_eq .bit) fun b _ => ?_
  exact checked_bind rfl fun _ _ => rfl

theorem statusBit!_eq : statusBit! d s = checked (statusBit d s) := by
  rw [statusBit!, statusBit]
  exact checked_bind (h.cell!_eq .flagBit) fun _ _ => rfl

theorem branch!_eq (wanted : Bool) : branch! d s wanted = checked (branch d s wanted) := by
  rw [branch!, branch]
  refine checked_bind h.statusBit!_eq fun b hb => ?_
  have hunit := h.status.unit_lt (statusBit_ok_iff.1 hb).2
  rw [lift_bind_eq (BitField.bit!_eq hunit)]
  split
  · exact checked_bind h.relative!_eq fun _ _ => rfl
  · rfl

omit h in
theorem testBit!_eq {bit : Nat} (hbit : bit < 64) (word : Nat) :
    testBit! word bit = .ok (word.testBit bit) := by
  rw [testBit!, bind_eq (shiftRight_eq hbit word), ← Nat.shiftRight_eq_div_pow]
  rfl

omit h in
theorem withBit!_eq {bit : Nat} (hbit : bit < 64) (word : Nat) (value : Bool) :
    withBit! word bit value = .ok (withBit word bit value) := by
  have hone : 1 * 2 ^ bit % 2 ^ 64 = 2 ^ bit := by
    rw [Nat.one_mul, Nat.mod_eq_of_lt (Nat.pow_lt_pow_right (by decide) hbit)]
  rw [withBit!, bind_eq (shiftLeft_eq hbit 1), hone]
  refine congrArg Except.ok (Nat.eq_of_testBit_eq fun i => ?_)
  rw [testBit_withBit]
  by_cases hi : i = bit
  · subst hi
    cases value <;> simp [Nat.testBit_or, Nat.testBit_xor, Nat.testBit_and, Nat.testBit_two_pow_self]
  · have hne := Nat.testBit_two_pow_of_ne (Ne.symm hi)
    cases value <;> simp [Nat.testBit_or, Nat.testBit_xor, Nat.testBit_and, hne, hi]

/-! ### All operations -/

theorem ofOperation!_eq (layout : FlagLayout) :
    ofOperation! d s layout = checked (ofOperation d s layout) := by
  have hpos := d.width.bits_pos
  have hle := d.width.bits_le_64
  have hpos' : 0 < 2 * d.width.bits := by omega
  have hle' : 2 * d.width.bits ≤ 64 := Nat.mul_le_mul_left 2 d.width.bits_le
  have hword {bit : Nat} (hbit : registerBit d s = .ok bit) : bit < 64 :=
    Nat.lt_of_lt_of_le (registerBit_ok_iff.1 hbit).2 hle
  cases hop : d.instruction.operation <;> simp only [ofOperation!, ofOperation, hop]
  case nop | stop => rfl
  case add => exact h.binary!_eq fun a b => Alu.add!_eq hpos hle a b false
  case subtract => exact h.binary!_eq fun a b => Alu.sub!_eq hpos hle a b false
  case addWithCarry =>
    rw [lift_bind_eq (Storage.flag!_eq h.status layout .carry)]
    exact h.binary!_eq fun a b => Alu.add!_eq hpos hle a b _
  case subtractWithCarry =>
    rw [lift_bind_eq (Storage.flag!_eq h.status layout .carry)]
    exact h.binary!_eq fun a b => Alu.sub!_eq hpos hle a b _
  case addWord => exact h.onPair!_eq fun a b => Alu.add!_eq hpos' hle' a b false
  case subtractWord => exact h.onPair!_eq fun a b => Alu.sub!_eq hpos' hle' a b false
  case increment => exact h.unary!_eq fun a => Alu.add!_eq hpos hle a 1 false
  case decrement => exact h.unary!_eq fun a => Alu.sub!_eq hpos hle a 1 false
  case negate => exact h.unary!_eq fun a => Alu.sub!_eq hpos hle 0 a false
  case compare => exact h.comparison!_eq fun a b => Alu.sub!_eq hpos hle a b false
  case and | or | xor => exact h.binary!_eq fun a b => Alu.logic!_eq hpos hle _
  case complement => exact h.unary!_eq (Alu.complement!_eq hpos hle)
  case shiftLeft => exact h.unary!_eq (Alu.shiftLeft!_eq hpos hle)
  case shiftRight => exact h.unary!_eq (Alu.shiftRight!_eq hpos hle)
  case arithmeticShiftRight => exact h.unary!_eq (Alu.arithmeticShiftRight!_eq hpos hle)
  case rotateRight =>
    rw [lift_bind_eq (Storage.flag!_eq h.status layout .carry)]
    exact h.unary!_eq fun a => Alu.rotateRight!_eq hpos hle a _
  case move =>
    refine checked_bind h.second!_eq fun _ _ => ?_
    exact checked_bind (h.registerIndex!_eq _) fun _ _ => rfl
  case load =>
    refine checked_bind h.address!_eq fun a _ => ?_
    refine checked_bind rfl fun i hi => ?_
    obtain ⟨hlt, rfl⟩ := within_ok_iff.1 hi
    rw [lift_bind_eq (readAt_getD hlt 0)]
    exact checked_bind (h.registerIndex!_eq _) fun _ _ => rfl
  case store =>
    refine checked_bind h.address!_eq fun a _ => ?_
    refine checked_bind (h.register!_eq _) fun _ _ => ?_
    exact checked_bind rfl fun _ _ => rfl
  case push =>
    refine checked_bind (h.register!_eq _) fun _ _ => ?_
    exact checked_bind rfl fun _ _ => rfl
  case pop =>
    refine checked_bind top!_eq fun _ _ => ?_
    exact checked_bind (h.registerIndex!_eq _) fun _ _ => rfl
  case input =>
    refine checked_bind (h.cell!_eq _) fun a _ => ?_
    refine checked_bind (input!_eq a) fun _ _ => ?_
    exact checked_bind (h.registerIndex!_eq _) fun _ _ => rfl
  case output =>
    refine checked_bind (h.cell!_eq _) fun a _ => ?_
    refine checked_bind (h.register!_eq _) fun value _ => ?_
    exact checked_bind (output!_eq a value) fun _ _ => rfl
  case setPin => exact h.pin!_eq true
  case clearPin => exact h.pin!_eq false
  case setFlag | clearFlag => exact checked_bind h.statusBit!_eq fun _ _ => rfl
  case bitStore =>
    refine checked_bind h.registerBit!_eq fun bit hbit => ?_
    refine checked_bind (h.register!_eq _) fun word _ => ?_
    rw [lift_bind_eq (testBit!_eq (hword hbit) word)]
    rfl
  case bitLoad =>
    refine checked_bind h.registerBit!_eq fun bit hbit => ?_
    refine checked_bind (h.registerIndex!_eq _) fun rd hrd => ?_
    rw [lift_bind_eq (readAt_getD (registerIndex_ok_iff.1 hrd).2 0),
      lift_bind_eq (Storage.flag!_eq h.status layout .transfer),
      lift_bind_eq (withBit!_eq (hword hbit) _ _)]
    rfl
  case branchIfSet => exact h.branch!_eq true
  case branchIfClear => exact h.branch!_eq false
  case jump =>
    split
    · exact checked_bind h.relative!_eq fun _ _ => rfl
    · exact checked_bind (h.cell!_eq _) fun _ _ => rfl
  case call =>
    refine checked_bind (h.cell!_eq _) fun target _ => ?_
    exact checked_bind rfl fun _ _ => rfl
  case ret => exact checked_bind top!_eq fun _ _ => rfl

theorem of!_eq (layout : FlagLayout) : of! d s layout = checked (Plan.of d s layout) := by
  rw [of!, Plan.of]
  exact checked_bind h.checkRegisters!_eq fun _ _ => h.ofOperation!_eq layout

end Ready

end Plan

end Microcontroller
