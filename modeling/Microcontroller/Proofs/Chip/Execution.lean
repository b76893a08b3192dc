import Microcontroller.Chip.Restore
import Microcontroller.Proofs.Chip.Layout
import Microcontroller.Proofs.Chip.Plan
import Microcontroller.Proofs.InPlace
/-!
# Executing in place

A plan has all of its checks before its writes, and its writes cannot fail. A machine has no plan: it
reads and writes storage as it comes to it, every access is checked by itself, the second register of a
pair after the first has been written, and what is written when an access fails stays written. Here
instructions are executed in that way, by the accesses that rows of cells, fields of bits and banks have.
Planning an instruction and carrying out the plan comes to the same, in the result and in what storage is
left with (`run_eq`).
-/

namespace Microcontroller.Execution

variable {α β γ δ : Type}

/-- What comes of something planned from `s` on. Where there is no plan, storage is left as it is. -/
def planned (s : Storage) (carryOut : γ → EStateM.Result Fault Storage α) :
    Except Fault γ → EStateM.Result Fault Storage α
  | .ok plan => carryOut plan
  | .error fault => .error fault s

/-! ### Accesses -/

/-- Look at storage, which stays as it is. -/
def look (f : Storage → Except Fault α) : InPlace Fault Storage α := fun s =>
  planned s (.ok · s) (f s)

/-- Read from a region. -/
def read (region : Region) (access : Storage → Except Error α) : InPlace Fault Storage α :=
  look fun s => Chip.inRegion s.ip region (access s)

/-- Write to a region. -/
def write (region : Region) (access : Storage → Except Error Storage) : InPlace Fault Storage Unit :=
  fun s => planned s (.ok ()) (Chip.inRegion s.ip region (access s))

def readRegister (index : Nat) : InPlace Fault Storage Nat := read .registers (·.registers.raw? index)

def writeRegister (index value : Nat) : InPlace Fault Storage Unit :=
  write .registers fun s => do return { s with registers := ← s.registers.setRaw index value }

def readRam (region : Region) (address : Nat) : InPlace Fault Storage Nat :=
  read region (·.memory.read address)

def writeRam (region : Region) (address value : Nat) : InPlace Fault Storage Unit :=
  write region fun s => do return { s with memory := ← s.memory.write address value }

def readStatus (index : Nat) : InPlace Fault Storage Bool := read .status (·.status.get index)

def writeStatus (index : Nat) (value : Bool) : InPlace Fault Storage Unit :=
  write .status fun s => do return { s with status := ← s.status.set index value }

def writePin (index : Nat) (value : Bool) : InPlace Fault Storage Unit :=
  write .digital fun s => do return { s with io := ← s.io.setPin index value }

def setStackPointer (sp : Nat) : InPlace Fault Storage Unit := modify fun s => { s with sp }

/-! ### Parts of instructions -/

section

variable (layout : FlagLayout) (d : Decoded)

def register (kind : OperandKind) : InPlace Fault Storage Nat := do
  readRegister (← look (Plan.cell d · kind))

def putRegister (kind : OperandKind) (value : Nat) : InPlace Fault Storage Unit := do
  writeRegister (← look (Plan.cell d · kind)) value

def second : InPlace Fault Storage Nat :=
  if d.has .source then register d .source else look (Plan.immediate d)

def pairWord (pair : Nat × Nat) : InPlace Fault Storage Nat := do
  let high ← readRegister pair.2
  return d.width.join high (← readRegister pair.1)

def writePair (pair : Nat × Nat) (word : Nat) : InPlace Fault Storage Unit := do
  writeRegister pair.1 (word % d.width.capacity)
  writeRegister pair.2 (word / d.width.capacity)

def address : InPlace Fault Storage Nat := do
  if d.has .pointer then pairWord d (← look (Plan.pair d)) else look (Plan.cell d · .address)

/-- A flag that the status register has no room for is false. -/
def flag (f : Flag) : InPlace Fault Storage Bool := look fun s => .ok (s.flag layout f)

def setFlag (f : Flag) (value : Bool) : InPlace Fault Storage Unit :=
  writeStatus (layout.index f) value

/-- Set the flags of an outcome that the instruction declares, one after the other. -/
def setFlags (o : Alu.Outcome) : InPlace Fault Storage Unit :=
  d.instruction.flags.forM fun f =>
    match o.flag? f with
    | some value => setFlag layout f value
    | none => pure ()

/-- Put the value of an outcome into the destination register, and then set its flags. -/
def writeBack (o : Alu.Outcome) : InPlace Fault Storage Unit := do
  putRegister d .destination o.value
  setFlags layout d o

def push (value : Nat) : InPlace Fault Storage Unit := do
  let sp := d.width.wrap (((← getThe Storage).sp : Int) - 1)
  writeRam .stack sp value
  setStackPointer sp

def top : InPlace Fault Storage Nat := do readRam .stack (← getThe Storage).sp

def drop : InPlace Fault Storage Unit := do
  setStackPointer (d.width.wrap ((← getThe Storage).sp + 1))

def input (address : Nat) : InPlace Fault Storage Nat := do
  let s ← getThe Storage
  match AddressMap.resolve address with
  | .stackPointer => return s.sp
  | target =>
    match s.io.read target with
    | some result => read (.ofTarget target) fun _ => result
    | none => throw (Plan.unmapped s address)

def output (address value : Nat) : InPlace Fault Storage Unit := do
  let s ← getThe Storage
  match AddressMap.resolve address with
  | .stackPointer => setStackPointer (d.width.truncate value)
  | target =>
    match s.io.write target value with
    | some result => write (.ofTarget target) fun s => do return { s with io := ← result }
    | none => throw (Plan.unmapped s address)

/-! ### Instructions -/

def unary (f : Nat → Alu.Outcome) : InPlace Fault Storage Flow := do
  writeBack layout d (f (← register d .destination))
  return .next

def binary (f : Nat → Nat → Alu.Outcome) : InPlace Fault Storage Flow := do
  let a ← register d .destination
  writeBack layout d (f a (← second d))
  return .next

def comparison (f : Nat → Nat → Alu.Outcome) : InPlace Fault Storage Flow := do
  let a ← register d .destination
  setFlags layout d (f a (← second d))
  return .next

def onPair (f : Nat → Nat → Alu.Outcome) : InPlace Fault Storage Flow := do
  let pair ← look (Plan.pair d)
  let a ← pairWord d pair
  let o := f a (← look (Plan.immediate d))
  writePair d pair o.value
  setFlags layout d o
  return .next

def setPin (value : Bool) : InPlace Fault Storage Flow := do
  writePin (← look (Plan.cell d · .bit)) value
  return .next

def setStatusBit (value : Bool) : InPlace Fault Storage Flow := do
  writeStatus (← look (Plan.cell d · .flagBit)) value
  return .next

def branch (wanted : Bool) : InPlace Fault Storage Flow := do
  let bit ← readStatus (← look (Plan.cell d · .flagBit))
  if bit = wanted then return .jump (← look (Plan.relative d)) else return .next

def operate : InPlace Fault Storage Flow :=
  let bits := d.width.bits
  match d.instruction.operation with
  | .nop => return .next
  | .add => binary layout d (Alu.add bits · · false)
  | .addWithCarry => do
    let carry ← flag layout .carry
    binary layout d (Alu.add bits · · carry)
  | .addWord => onPair layout d (Alu.add (2 * bits) · · false)
  | .subtract => binary layout d (Alu.sub bits · · false)
  | .subtractWithCarry => do
    let carry ← flag layout .carry
    binary layout d (Alu.sub bits · · carry)
  | .subtractWord => onPair layout d (Alu.sub (2 * bits) · · false)
  | .increment => unary layout d (Alu.add bits · 1 false)
  | .decrement => unary layout d (Alu.sub bits · 1 false)
  | .negate => unary layout d (Alu.negate bits)
  | .compare => comparison layout d (Alu.sub bits · · false)
  | .and => binary layout d fun a b => Alu.logic bits (a &&& b)
  | .or => binary layout d fun a b => Alu.logic bits (a ||| b)
  | .xor => binary layout d fun a b => Alu.logic bits (a ^^^ b)
  | .complement => unary layout d (Alu.complement bits)
  | .shiftLeft => unary layout d (Alu.shiftLeft bits)
  | .shiftRight => unary layout d (Alu.shiftRight bits)
  | .arithmeticShiftRight => unary layout d (Alu.arithmeticShiftRight bits)
  | .rotateRight => do
    let carry ← flag layout .carry
    unary layout d (Alu.rotateRight bits · carry)
  | .move => do
    putRegister d .destination (← second d)
    return .next
  | .load => do
    putRegister d .destination (← readRam .ram (← address d))
    return .next
  | .store => do
    let a ← address d
    writeRam .ram a (← register d .source)
    return .next
  | .push => do
    push d (← register d .source)
    return .next
  | .pop => do
    putRegister d .destination (← top)
    drop d
    return .next
  | .input => do
    putRegister d .destination (← input (← look (Plan.cell d · .ioAddress)))
    return .next
  | .output => do
    let a ← look (Plan.cell d · .ioAddress)
    output d a (← register d .source)
    return .next
  | .setPin => setPin d true
  | .clearPin => setPin d false
  | .setFlag => setStatusBit d true
  | .clearFlag => setStatusBit d false
  | .bitStore => do
    let bit ← look (Plan.registerBit d)
    let word ← register d .destination
    setFlag layout .transfer (word.testBit bit)
    return .next
  | .bitLoad => do
    let bit ← look (Plan.registerBit d)
    let word ← register d .destination
    putRegister d .destination (Plan.withBit word bit (← flag layout .transfer))
    return .next
  | .branchIfSet => branch d true
  | .branchIfClear => branch d false
  | .jump =>
    if d.has .offset then do return .jump (← look (Plan.relative d))
    else do return .jump (← look (Plan.cell d · .address))
  | .call => do
    let target ← look (Plan.cell d · .address)
    push d (d.width.wrap ((← getThe Storage).ip + d.size))
    return .jump target
  | .ret => do
    let target ← top
    drop d
    return .jump target
  | .stop => return .stop

/-- Execute the instruction at the instruction pointer, which does not move. -/
def run : InPlace Fault Storage Flow := do
  look (Plan.checkRegisters d)
  operate layout d

end

/-! ### One step after the other -/

variable {layout : FlagLayout} {d : Decoded} {s : Storage}

/-- Two steps can be planned together if what the second does can be planned before the first is done. -/
theorem planned_bind {first : InPlace Fault Storage α} {next : α → InPlace Fault Storage β}
    {found : Except Fault γ} {value : γ → α} {after : γ → Storage} {plan : γ → Except Fault δ}
    {carryOut : δ → EStateM.Result Fault Storage β}
    (hfirst : first s = planned s (fun c => .ok (value c) (after c)) found)
    (hnext : ∀ c, found = .ok c → next (value c) (after c) = planned s carryOut (plan c)) :
    (first >>= next) s = planned s carryOut (found >>= plan) := by
  cases found with
  | ok c => exact (InPlace.bind_ok hfirst).trans (hnext c rfl)
  | error fault => exact InPlace.bind_error hfirst

theorem look_bind {f : Storage → Except Fault α} {next : α → InPlace Fault Storage β}
    {plan : α → Except Fault δ} {carryOut : δ → EStateM.Result Fault Storage β}
    (hnext : ∀ a, f s = .ok a → next a s = planned s carryOut (plan a)) :
    (look f >>= next) s = planned s carryOut (f s >>= plan) :=
  planned_bind rfl hnext

theorem planned_pure (f : γ → δ) (carryOut : δ → EStateM.Result Fault Storage α)
    (found : Except Fault γ) :
    planned s carryOut (found >>= fun c => pure (f c)) =
      planned s (fun c => carryOut (f c)) found := by
  cases found <;> rfl

/-! ### What is read -/

theorem read_eq {access : Storage → Except Error α} (value : Nat → α) {region : Region}
    {len index : Nat}
    (h : access s = if index < len then .ok (value index) else .error (.outOfBounds index len)) :
    read region access s = planned s (fun i => .ok (value i) s) (Plan.within s region len index) := by
  rw [read, look, h, Plan.within]
  split <;> rfl

theorem readRegister_eq (index : Nat) (s : Storage) : readRegister index s =
    planned s (fun i => .ok (Plan.registerWord s i) s)
      (Plan.within s .registers s.registers.size index) :=
  read_eq (Plan.registerWord s) (Cells.raw?_eq _ index)

theorem register_eq_index (d : Decoded) (kind : OperandKind) (s : Storage) : register d kind s =
    planned s (fun rd => .ok (Plan.registerWord s rd) s) (Plan.registerIndex d s kind) :=
  look_bind fun index _ => readRegister_eq index s

theorem register_eq (d : Decoded) (kind : OperandKind) (s : Storage) :
    register d kind s = planned s (.ok · s) (Plan.register d s kind) := by
  rw [register_eq_index, Plan.register, planned_pure]

theorem second_eq (d : Decoded) (s : Storage) :
    second d s = planned s (.ok · s) (Plan.second d s) := by
  rw [second, Plan.second]
  split
  · exact register_eq d .source s
  · rfl

/-- Both registers of a pair are there. -/
theorem pairWord_eq {p : Nat × Nat} (h : Plan.pair d s = .ok p) :
    pairWord d p s = .ok (Plan.pairWord d s p) s := by
  obtain ⟨hlow, hhigh⟩ := Plan.pair_lt h
  have hread {i : Nat} (hi : i < s.registers.size) :
      readRegister i s = .ok (Plan.registerWord s i) s := by
    rw [readRegister_eq, Plan.within, if_pos hi, planned]
  rw [pairWord, InPlace.bind_ok (hread hhigh), InPlace.bind_ok (hread hlow)]
  rfl

theorem address_eq (d : Decoded) (s : Storage) :
    address d s = planned s (.ok · s) (Plan.address d s) := by
  rw [address, Plan.address]
  split
  · exact look_bind fun p hp => pairWord_eq hp
  · rfl

theorem readRam_eq (region : Region) (address : Nat) (s : Storage) : readRam region address s =
    planned s (fun a => .ok (Plan.ramWord s a) s)
      (Plan.within s region s.memory.ram.size address) :=
  read_eq (Plan.ramWord s) (Cells.raw?_eq _ address)

theorem top_eq (s : Storage) : top s = planned s (.ok · s) (Plan.top s) := by
  rw [top, InPlace.getThe_bind, readRam_eq, Plan.top, planned_pure]

theorem readStatus_eq (index : Nat) (s : Storage) : readStatus index s =
    planned s (fun b => .ok (s.status.bit b) s) (Plan.within s .status s.status.len index) :=
  read_eq s.status.bit rfl

theorem input_eq (address : Nat) (s : Storage) :
    input address s = planned s (.ok · s) (Plan.input s address) := by
  rw [input, InPlace.getThe_bind, Plan.input]
  cases AddressMap.resolve address with
  | digital group =>
    dsimp only
    rw [planned_pure]
    refine read_eq (fun i => (s.io.digital.units.getD i 0).toNat) ?_
    rw [BitField.unit_eq]
    split <;> rfl
  | analog channel =>
    dsimp only
    rw [planned_pure]
    exact read_eq (s.io.analog.raw.getD · 0) (Cells.raw?_eq _ channel)
  | mapped channel =>
    dsimp only
    rw [planned_pure]
    exact read_eq (s.io.mapped.raw.getD · 0) (Cells.raw?_eq _ channel)
  | stackPointer | reserved => rfl

/-! ### What is written -/

theorem write_eq {access : Storage → Except Error Storage} (after : Nat → Storage) {region : Region}
    {len index : Nat}
    (h : access s = if index < len then .ok (after index) else .error (.outOfBounds index len)) :
    write region access s = planned s (fun i => .ok () (after i)) (Plan.within s region len index) := by
  rw [write, h, Plan.within]
  split <;> rfl

theorem writeRegister_eq (index value : Nat) (s : Storage) : writeRegister index value s =
    planned s (fun i => .ok () (s.apply (.register i value)))
      (Plan.within s .registers s.registers.size index) := by
  refine write_eq (fun i => s.apply (.register i value)) ?_
  rw [Cells.setRaw, Cells.update]
  split <;> rfl

theorem putRegister_eq (d : Decoded) (kind : OperandKind) (value : Nat) (s : Storage) :
    putRegister d kind value s =
      planned s (fun rd => .ok () (s.apply (.register rd value))) (Plan.registerIndex d s kind) :=
  look_bind fun index _ => writeRegister_eq index value s

theorem putRegister_ok {kind : OperandKind} {rd : Nat} (h : Plan.registerIndex d s kind = .ok rd)
    (value : Nat) : putRegister d kind value s = .ok () (s.apply (.register rd value)) := by
  rw [putRegister_eq, h, planned]

theorem writeRam_eq (region : Region) (address value : Nat) (s : Storage) :
    writeRam region address value s =
      planned s (fun a => .ok () (s.apply (.ram a value)))
        (Plan.within s region s.memory.ram.size address) := by
  refine write_eq (fun a => s.apply (.ram a value)) ?_
  rw [Memory.write, Cells.setRaw, Cells.update]
  split <;> rfl

theorem writeStatus_eq (index : Nat) (value : Bool) (s : Storage) : writeStatus index value s =
    planned s (fun b => .ok () (s.apply (.status b value)))
      (Plan.within s .status s.status.len index) := by
  refine write_eq (fun b => s.apply (.status b value)) ?_
  rw [BitField.set]
  split <;> rfl

theorem writePin_eq (index : Nat) (value : Bool) (s : Storage) : writePin index value s =
    planned s (fun b => .ok () (s.apply (.pin b value)))
      (Plan.within s .digital s.io.digital.len index) := by
  refine write_eq (fun b => s.apply (.pin b value)) ?_
  rw [IoBanks.setPin, BitField.set]
  split <;> rfl

theorem push_eq (d : Decoded) (value : Nat) (s : Storage) : push d value s =
    planned s (fun writes => .ok () (writes.foldl Storage.apply s)) (Plan.push d s value) := by
  rw [push, InPlace.getThe_bind]
  refine planned_bind (writeRam_eq .stack _ value s) fun sp hsp => ?_
  obtain ⟨-, rfl⟩ := Plan.within_ok_iff.1 hsp
  rfl

theorem output_eq (d : Decoded) (address value : Nat) (s : Storage) : output d address value s =
    planned s (fun w => .ok () (s.apply w)) (Plan.output d s address value) := by
  rw [output, InPlace.getThe_bind, Plan.output]
  cases AddressMap.resolve address with
  | digital group =>
    dsimp only [IoBanks.write, Region.ofTarget]
    rw [planned_pure]
    refine write_eq (fun i => s.apply (.pinGroup i (BitVec.ofNat 8 value))) ?_
    rw [BitField.setUnit]
    split <;> rfl
  | analog channel =>
    dsimp only [IoBanks.write, Region.ofTarget]
    rw [planned_pure]
    refine write_eq (fun i => s.apply (.analog i value)) ?_
    rw [IoBanks.setAnalog, Cells.setRaw, Cells.update]
    split <;> rfl
  | mapped channel =>
    dsimp only [IoBanks.write, Region.ofTarget]
    rw [planned_pure]
    refine write_eq (fun i => s.apply (.mapped i value)) ?_
    rw [IoBanks.setMapped, Cells.setRaw, Cells.update]
    split <;> rfl
  | stackPointer | reserved => rfl

/-! ### Flags

They are set one after the other, and a flag that has no room in the status register ends an instruction
that has written before. From here on it matters what storage is left with. -/

/-- A result beside the storage that it was left with. -/
def left : Except Fault α × Storage → EStateM.Result Fault Storage α
  | (.ok a, s) => .ok a s
  | (.error fault, s) => .error fault s

theorem setFlag_ok {f : Flag} (h : layout.index f < s.status.len) (value : Bool) :
    setFlag layout f value s = .ok () (s.apply (.status (layout.index f) value)) := by
  rw [setFlag, writeStatus_eq, Plan.within, if_pos h, planned]

theorem setFlag_error {f : Flag} (h : ¬ layout.index f < s.status.len) (value : Bool) :
    setFlag layout f value s =
      .error (.bounds s.ip .status (layout.index f) s.status.len) s := by
  rw [setFlag, writeStatus_eq, Plan.within, if_neg h, planned]

theorem setFlag_eq (layout : FlagLayout) (f : Flag) (value : Bool) (s : Storage) :
    setFlag layout f value s = left (s.setFlags layout [(f, value)]) := by
  rw [Storage.setFlags]
  by_cases h : layout.index f < s.status.len
  · simp only [setFlag_ok h, h, if_true]
    rfl
  · simp only [setFlag_error h, h, if_false, left]

theorem setFlags_eq (layout : FlagLayout) (d : Decoded) (o : Alu.Outcome) (s : Storage) :
    setFlags layout d o s = left (s.setFlags layout (Plan.declared d o)) := by
  rw [setFlags, Plan.declared, List.forM_eq_forM]
  induction d.instruction.flags generalizing s with
  | nil => rfl
  | cons f rest ih =>
    rw [List.filterMap_cons, List.forM_cons]
    cases o.flag? f with
    | none => exact ih s
    | some value =>
      dsimp only [Option.map_some]
      rw [Storage.setFlags]
      by_cases h : layout.index f < s.status.len
      · rw [InPlace.bind_ok (setFlag_ok h value), ih]
        simp only [h, if_true]
        rfl
      · rw [InPlace.bind_error (setFlag_error h value)]
        simp only [h, if_false, left]

/-- What comes of a plan that is carried out. -/
def committed (layout : FlagLayout) (s : Storage) (plan : Plan) :
    EStateM.Result Fault Storage Flow :=
  left (s.commit layout plan)

/-- Writes, then flags, and then on to where the flow goes. -/
theorem committed_eq {change : InPlace Fault Storage Unit} {writes : List Write}
    {flags : List (Flag × Bool)} {t : Storage} (flow : Flow)
    (hchange : change t = left ((writes.foldl Storage.apply s).setFlags layout flags)) :
    (change >>= fun _ => pure flow) t = committed layout s ⟨writes, flags, flow⟩ := by
  rw [committed, Storage.commit]
  dsimp only
  rcases h : (writes.foldl Storage.apply s).setFlags layout flags with ⟨_ | _, s'⟩
  · rw [h] at hchange
    exact InPlace.bind_error hchange
  · rw [h] at hchange
    exact InPlace.bind_ok hchange

/-! ### Instructions -/

theorem writeBack_eq {rd : Nat} (h : Plan.registerIndex d s .destination = .ok rd) (o : Alu.Outcome) :
    (writeBack layout d o >>= fun _ => pure .next) s =
      committed layout s ⟨[.register rd o.value], Plan.declared d o, .next⟩ := by
  refine committed_eq .next ?_
  rw [writeBack, InPlace.bind_ok (putRegister_ok h _), setFlags_eq]
  rfl

theorem unary_eq (layout : FlagLayout) (d : Decoded) (f : Nat → Alu.Outcome) (s : Storage) :
    unary layout d f s = planned s (committed layout s) (Plan.unary d s f) :=
  planned_bind (register_eq_index d .destination s) fun _ hrd => writeBack_eq hrd _

theorem binary_eq (layout : FlagLayout) (d : Decoded) (f : Nat → Nat → Alu.Outcome) (s : Storage) :
    binary layout d f s = planned s (committed layout s) (Plan.binary d s f) :=
  planned_bind (register_eq_index d .destination s) fun _ hrd =>
    planned_bind (second_eq d s) fun _ _ => writeBack_eq hrd _

theorem comparison_eq (layout : FlagLayout) (d : Decoded) (f : Nat → Nat → Alu.Outcome)
    (s : Storage) :
    comparison layout d f s = planned s (committed layout s) (Plan.comparison d s f) :=
  planned_bind (register_eq d .destination s) fun _ _ =>
    planned_bind (second_eq d s) fun _ _ => committed_eq .next (setFlags_eq layout d _ s)

/-- The second register of a pair is still there once the first has been written. -/
theorem writePair_eq {low high : Nat} (h : Plan.pair d s = .ok (low, high)) (word : Nat) :
    writePair d (low, high) word s =
      .ok () ([.register low (word % d.width.capacity),
        .register high (word / d.width.capacity)].foldl Storage.apply s) := by
  obtain ⟨hlow, hhigh⟩ := Plan.pair_lt h
  have hfirst (value : Nat) : writeRegister low value s = .ok () (s.apply (.register low value)) := by
    rw [writeRegister_eq, Plan.within, if_pos hlow, planned]
  have hsize (value : Nat) : (s.apply (.register low value)).registers.size = s.registers.size :=
    Array.size_modify
  rw [writePair, InPlace.bind_ok (hfirst _), writeRegister_eq, Plan.within, hsize, if_pos hhigh,
    planned]
  rfl

theorem onPair_eq (layout : FlagLayout) (d : Decoded) (f : Nat → Nat → Alu.Outcome) (s : Storage) :
    onPair layout d f s = planned s (committed layout s) (Plan.onPair d s f) := by
  refine look_bind fun p hp => ?_
  obtain ⟨low, high⟩ := p
  dsimp only
  rw [InPlace.bind_ok (pairWord_eq hp)]
  refine look_bind fun k _ => ?_
  rw [InPlace.bind_ok (writePair_eq hp _)]
  exact committed_eq .next (setFlags_eq layout d _ _)

theorem setPin_eq (layout : FlagLayout) (d : Decoded) (value : Bool) (s : Storage) :
    setPin d value s = planned s (committed layout s) (Plan.pin d s value) := by
  refine look_bind fun b _ => ?_
  exact planned_bind (writePin_eq b value s) fun b _ => rfl

theorem setStatusBit_eq (layout : FlagLayout) (d : Decoded) (value : Bool) (s : Storage) :
    setStatusBit d value s = planned s (committed layout s)
      (Plan.statusBit d s >>= fun b => pure (Plan.write [.status b value])) := by
  rw [Plan.statusBit, bind_assoc]
  refine look_bind fun b _ => ?_
  exact planned_bind (writeStatus_eq b value s) fun b _ => rfl

theorem branch_eq (layout : FlagLayout) (d : Decoded) (wanted : Bool) (s : Storage) :
    branch d wanted s = planned s (committed layout s) (Plan.branch d s wanted) := by
  rw [Plan.branch, Plan.statusBit, bind_assoc]
  refine look_bind fun b _ => ?_
  refine planned_bind (readStatus_eq b s) fun b _ => ?_
  split
  · exact look_bind fun target _ => rfl
  · rfl

theorem operate_eq (layout : FlagLayout) (d : Decoded) (s : Storage) :
    operate layout d s = planned s (committed layout s) (Plan.ofOperation d s layout) := by
  cases hop : d.instruction.operation <;> simp only [operate, Plan.ofOperation, hop]
  case nop | stop => rfl
  case add | addWithCarry | subtract | subtractWithCarry | and | or | xor =>
    exact binary_eq layout d _ s
  case increment | decrement | negate | complement | shiftLeft | shiftRight | arithmeticShiftRight
      | rotateRight => exact unary_eq layout d _ s
  case compare => exact comparison_eq layout d _ s
  case addWord | subtractWord => exact onPair_eq layout d _ s
  case setPin | clearPin => exact setPin_eq layout d _ s
  case setFlag | clearFlag => exact setStatusBit_eq layout d _ s
  case branchIfSet | branchIfClear => exact branch_eq layout d _ s
  case move =>
    exact planned_bind (second_eq d s) fun value _ =>
      planned_bind (putRegister_eq d .destination value s) fun rd _ => rfl
  case load =>
    refine planned_bind (address_eq d s) fun a _ => ?_
    refine planned_bind (readRam_eq .ram a s) fun a _ => ?_
    exact planned_bind (putRegister_eq d .destination _ s) fun rd _ => rfl
  case store =>
    refine planned_bind (address_eq d s) fun a _ => ?_
    refine planned_bind (register_eq d .source s) fun value _ => ?_
    exact planned_bind (writeRam_eq .ram a value s) fun a _ => rfl
  case push =>
    refine planned_bind (register_eq d .source s) fun value _ => ?_
    exact planned_bind (push_eq d value s) fun writes _ => rfl
  case pop =>
    refine planned_bind (top_eq s) fun value _ => ?_
    exact planned_bind (putRegister_eq d .destination value s) fun rd _ => rfl
  case input =>
    refine look_bind fun a _ => ?_
    refine planned_bind (input_eq a s) fun value _ => ?_
    exact planned_bind (putRegister_eq d .destination value s) fun rd _ => rfl
  case output =>
    refine look_bind fun a _ => ?_
    refine planned_bind (register_eq d .source s) fun value _ => ?_
    exact planned_bind (output_eq d a value s) fun w _ => rfl
  case bitStore =>
    refine look_bind fun bit _ => ?_
    refine planned_bind (register_eq d .destination s) fun word _ => ?_
    exact committed_eq .next (setFlag_eq layout .transfer _ s)
  case bitLoad =>
    refine look_bind fun bit _ => ?_
    refine planned_bind (register_eq_index d .destination s) fun rd hrd => ?_
    have hflag : flag layout .transfer s = .ok (s.flag layout .transfer) s := rfl
    rw [InPlace.bind_ok hflag, InPlace.bind_ok (putRegister_ok hrd _)]
    rfl
  case jump =>
    split
    · exact look_bind fun target _ => rfl
    · exact look_bind fun target _ => rfl
  case call =>
    refine look_bind fun target _ => ?_
    rw [InPlace.getThe_bind]
    exact planned_bind (push_eq d _ s) fun writes _ => rfl
  case ret => exact planned_bind (top_eq s) fun target _ => rfl

/-- Executing in place comes to the same as planning and carrying out the plan. -/
theorem run_eq (layout : FlagLayout) (d : Decoded) (s : Storage) :
    run layout d s = left (s.execute layout d) := by
  have hrun : run layout d s = planned s (committed layout s) (Plan.of d s layout) :=
    look_bind fun _ _ => operate_eq layout d s
  rw [hrun, Storage.execute]
  cases Plan.of d s layout <;> rfl

/-- Where the status register has room for all flags, a machine that comes to a fault has written nothing
of the instruction. -/
theorem run_error (hroom : ∀ f, layout.index f < s.status.len) {fault : Fault} {s' : Storage}
    (h : run layout d s = .error fault s') : s' = s := by
  rw [run_eq, Storage.execute_eq d hroom] at h
  cases hplan : Plan.of d s layout with
  | error _ =>
    rw [hplan] at h
    cases h
    rfl
  | ok plan =>
    rw [hplan] at h
    cases h

end Microcontroller.Execution
