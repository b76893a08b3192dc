import Microcontroller.Proofs.AddressMap
import Microcontroller.Proofs.Chip.Demand
import Microcontroller.Proofs.Result
/-!
# What a refusal says

An instruction is refused because it lacks an operand that its operation needs, and is then illegal, or
because it asks for something that storage does not have, and then the fault names it: the place, by an
index that comes from an operand, a pair of registers or the stack pointer, and the length that the
index is held against. For an instruction with all of its operands, that it is illegal is never the
reason.

`Seeks` says which places an instruction of each operation goes to, and `Misses` that one of them is not
there. `Reports` is what is left of this when it is of no interest which operation it was.
-/

namespace Microcontroller

/-- Lengths that an index into a region is held against. A bit of a register is an index into the
registers too. -/
def Storage.lengths (w : Width) (s : Storage) : Region → List Nat
  | .registers => [s.registers.size, w.bits]
  | .status => [s.status.len]
  | .ram | .stack => [s.memory.ram.size]
  | .rom | .io => []
  | .digital => [s.io.digital.units.size, s.io.digital.len]
  | .analog => [s.io.analog.size]
  | .mapped => [s.io.mapped.size]

variable {d : Decoded} {s : Storage} {layout : FlagLayout}

namespace Plan

/-- What planning takes for an index into storage. -/
inductive Index (d : Decoded) (s : Storage) : Nat → Prop where
  | cell {x : Nat} (h : x ∈ d.operands) : Index d s x
  | place {address : Nat} (h : address ∈ d.operands) : Index d s (AddressMap.resolve address).index
  | pair (p : Nat × Nat) : Index d s (pairWord d s p)
  | pushed : Index d s (d.width.wrap ((s.sp : Int) - 1))
  | top : Index d s s.sp

/-- A fault that says what the instruction or storage does not have. -/
inductive Reports (d : Decoded) (s : Storage) : Fault → Prop where
  | lacking (h : ¬ d.Complete) : Reports d s (illegal d s)
  | outside {region : Region} {index len : Nat} (hlen : len ∈ s.lengths d.width region)
      (hindex : Index d s index) (h : len ≤ index) : Reports d s (.bounds s.ip region index len)
  | pair {x : Nat} (hx : d.operand? .pointer = some x)
      (h : (Pointer.ofIndex? x).bind (·.pair? s.registers.size) = none) :
      Reports d s (.bounds s.ip .registers x s.registers.size)
  | unmapped {address : Nat} (haddress : address ∈ d.operands)
      (h : AddressMap.resolve address = .reserved) : Reports d s (unmapped s address)

/-- An instruction goes to this place, whose index is held against this length. -/
inductive Seeks (d : Decoded) (s : Storage) : Region → Nat → Nat → Prop where
  | register {kind : OperandKind} {x : Nat} (hkind : kind.isRegister) (hx : (kind, x) ∈ d.fields) :
      Seeks d s .registers x s.registers.size
  | registerBit {x : Nat} (hop : d.instruction.operation ∈ [.bitStore, .bitLoad])
      (hx : d.operand? .bit = some x) : Seeks d s .registers x d.width.bits
  | statusBit {x : Nat} (hx : d.operand? .flagBit = some x) : Seeks d s .status x s.status.len
  | ram {a : Nat} (ha : address d s = .ok a) : Seeks d s .ram a s.memory.ram.size
  | pushed : Seeks d s .stack (d.width.wrap ((s.sp : Int) - 1)) s.memory.ram.size
  | top : Seeks d s .stack s.sp s.memory.ram.size
  | pin {x : Nat} (hop : d.instruction.operation ∈ [.setPin, .clearPin])
      (hx : d.operand? .bit = some x) : Seeks d s .digital x s.io.digital.len
  | port {a group : Nat} (hop : d.instruction.operation ∈ [.input, .output]) (ha : a ∈ d.operands)
      (h : AddressMap.resolve a = .digital group) : Seeks d s .digital group s.io.digital.units.size
  | analog {a channel : Nat} (ha : a ∈ d.operands) (h : AddressMap.resolve a = .analog channel) :
      Seeks d s .analog channel s.io.analog.size
  | mapped {a channel : Nat} (ha : a ∈ d.operands) (h : AddressMap.resolve a = .mapped channel) :
      Seeks d s .mapped channel s.io.mapped.size

/-- A fault that says what an instruction goes without. -/
inductive Misses (d : Decoded) (s : Storage) : Fault → Prop where
  | lacking (h : ¬ d.Complete) : Misses d s (illegal d s)
  | outside {region : Region} {index len : Nat} (hplace : Seeks d s region index len)
      (h : len ≤ index) : Misses d s (.bounds s.ip region index len)
  | pair {x : Nat} (hx : d.operand? .pointer = some x)
      (h : (Pointer.ofIndex? x).bind (·.pair? s.registers.size) = none) :
      Misses d s (.bounds s.ip .registers x s.registers.size)
  | unmapped {address : Nat} (haddress : address ∈ d.operands)
      (h : AddressMap.resolve address = .reserved) : Misses d s (unmapped s address)

theorem mem_operands_of_cell {kind : OperandKind} {x : Nat} (h : cell d s kind = .ok x) :
    x ∈ d.operands :=
  Decoded.mem_operands (cell_ok_iff.1 h)

theorem index_of_address {a : Nat} (h : address d s = .ok a) : Index d s a := by
  rw [address_ok_iff] at h
  split at h
  · obtain ⟨p, -, rfl⟩ := h
    exact .pair p
  · exact .cell (Decoded.mem_operands h)

theorem Seeks.length_mem {region : Region} {index len : Nat} (h : Seeks d s region index len) :
    len ∈ s.lengths d.width region := by
  cases h
  case registerBit | pin => exact List.mem_cons_of_mem _ List.mem_cons_self
  all_goals exact List.mem_cons_self

theorem Seeks.index {region : Region} {index len : Nat} (h : Seeks d s region index len) :
    Index d s index := by
  cases h with
  | register _ hx => exact .cell (List.of_mem_zip hx).2
  | registerBit _ hx | pin _ hx | statusBit hx => exact .cell (Decoded.mem_operands hx)
  | ram ha => exact index_of_address ha
  | pushed => exact .pushed
  | top => exact .top
  | port _ ha hresolve | analog ha hresolve | mapped ha hresolve =>
    have hindex := Index.place (s := s) ha
    rwa [hresolve] at hindex

/-- What a fault says without the operation. -/
theorem Misses.reports {fault : Fault} (h : Misses d s fault) : Reports d s fault := by
  cases h with
  | lacking h => exact .lacking h
  | outside hplace h => exact .outside hplace.length_mem hplace.index h
  | pair hx h => exact .pair hx h
  | unmapped ha h => exact .unmapped ha h

theorem within_misses {region : Region} {len index : Nat} (hplace : Seeks d s region index len) :
    Fails (Misses d s) (within s region len index) := by
  rw [within]
  split
  next => exact fails_ok _
  next hle => exact fails_error (.outside hplace (Nat.le_of_not_lt hle))

/-! ### Operands

An operand has to be there only if the instruction is complete. -/

section

variable {kind : OperandKind}

theorem cell_misses (hkind : d.Complete → kind ∈ d.instruction.operands) :
    Fails (Misses d s) (cell d s kind) := by
  rw [cell]
  cases hnone : d.operand? kind with
  | some x => exact fails_ok x
  | none =>
    refine fails_error (.lacking fun hd => ?_)
    obtain ⟨x, hx⟩ := hd.exists_operand? (hkind hd)
    cases hnone.symm.trans hx

theorem registerIndex_misses (hregister : kind.isRegister)
    (hkind : d.Complete → kind ∈ d.instruction.operands) :
    Fails (Misses d s) (registerIndex d s kind) :=
  (cell_misses hkind).bind fun _ hx =>
    within_misses (.register hregister (Decoded.mem_of_operand? (cell_ok_iff.1 hx)))

theorem register_misses (hregister : kind.isRegister)
    (hkind : d.Complete → kind ∈ d.instruction.operands) :
    Fails (Misses d s) (register d s kind) :=
  (registerIndex_misses hregister hkind).bind fun _ _ => fails_ok _

end

theorem immediate_misses (hkind : d.Complete → .immediate ∈ d.instruction.operands) :
    Fails (Misses d s) (immediate d s) :=
  (cell_misses hkind).bind fun _ _ => fails_ok _

theorem second_misses (hkind : d.Complete →
    .source ∈ d.instruction.operands ∨ .immediate ∈ d.instruction.operands) :
    Fails (Misses d s) (second d s) := by
  rw [second]
  split
  next hhas => exact register_misses rfl fun _ => Decoded.has_iff.1 hhas
  next hhas =>
    exact immediate_misses fun hd => (hkind hd).resolve_left fun h => hhas (Decoded.has_iff.2 h)

theorem pair_misses (hkind : d.Complete → .pointer ∈ d.instruction.operands) :
    Fails (Misses d s) (pair d s) := by
  refine (cell_misses hkind).bind fun x hx => ?_
  split
  next => exact fails_ok _
  next hnone => exact fails_error (.pair (cell_ok_iff.1 hx) hnone)

theorem address_misses (hkind : d.Complete →
    .pointer ∈ d.instruction.operands ∨ .address ∈ d.instruction.operands) :
    Fails (Misses d s) (address d s) := by
  rw [address]
  split
  next hhas => exact (pair_misses fun _ => Decoded.has_iff.1 hhas).bind fun _ _ => fails_ok _
  next hhas =>
    exact cell_misses fun hd => (hkind hd).resolve_left fun h => hhas (Decoded.has_iff.2 h)

theorem relative_misses (hkind : d.Complete → .offset ∈ d.instruction.operands) :
    Fails (Misses d s) (relative d s) := by
  rw [relative]
  cases hoffset : d.offset? with
  | some offset => exact fails_ok _
  | none =>
    refine fails_error (.lacking fun hd => ?_)
    obtain ⟨x, hx⟩ := hd.exists_operand? (hkind hd)
    rw [Decoded.offset?, hx] at hoffset
    cases hoffset

theorem registerBit_misses (hop : d.instruction.operation ∈ [.bitStore, .bitLoad])
    (hkind : d.Complete → .bit ∈ d.instruction.operands) : Fails (Misses d s) (registerBit d s) :=
  (cell_misses hkind).bind fun _ hx => within_misses (.registerBit hop (cell_ok_iff.1 hx))

theorem statusBit_misses (hkind : d.Complete → .flagBit ∈ d.instruction.operands) :
    Fails (Misses d s) (statusBit d s) :=
  (cell_misses hkind).bind fun _ hx => within_misses (.statusBit (cell_ok_iff.1 hx))

theorem pin_misses (hop : d.instruction.operation ∈ [.setPin, .clearPin])
    (hkind : d.Complete → .bit ∈ d.instruction.operands) (value : Bool) :
    Fails (Misses d s) (pin d s value) :=
  (cell_misses hkind).bind fun _ hx =>
    (within_misses (.pin hop (cell_ok_iff.1 hx))).bind fun _ _ => fails_ok _

theorem branch_misses (hbit : d.Complete → .flagBit ∈ d.instruction.operands)
    (hoffset : d.Complete → .offset ∈ d.instruction.operands) (wanted : Bool) :
    Fails (Misses d s) (branch d s wanted) := by
  refine (statusBit_misses hbit).bind fun _ _ => ?_
  split
  · exact (relative_misses hoffset).bind fun _ _ => fails_ok _
  · exact fails_ok _

/-! ### Stack and I/O -/

theorem top_misses : Fails (Misses d s) (top s) :=
  (within_misses .top).bind fun _ _ => fails_ok _

theorem push_misses (value : Nat) : Fails (Misses d s) (push d s value) :=
  (within_misses .pushed).bind fun _ _ => fails_ok _

section

variable {a : Nat} (hop : d.instruction.operation ∈ [.input, .output]) (ha : a ∈ d.operands)

include hop ha

theorem input_misses : Fails (Misses d s) (input s a) := by
  rw [input]
  cases hresolve : AddressMap.resolve a with
  | digital group => exact (within_misses (.port hop ha hresolve)).bind fun _ _ => fails_ok _
  | analog channel => exact (within_misses (.analog ha hresolve)).bind fun _ _ => fails_ok _
  | mapped channel => exact (within_misses (.mapped ha hresolve)).bind fun _ _ => fails_ok _
  | stackPointer => exact fails_ok _
  | reserved => exact fails_error (.unmapped ha hresolve)

theorem output_misses (value : Nat) : Fails (Misses d s) (output d s a value) := by
  rw [output]
  cases hresolve : AddressMap.resolve a with
  | digital group => exact (within_misses (.port hop ha hresolve)).bind fun _ _ => fails_ok _
  | analog channel => exact (within_misses (.analog ha hresolve)).bind fun _ _ => fails_ok _
  | mapped channel => exact (within_misses (.mapped ha hresolve)).bind fun _ _ => fails_ok _
  | stackPointer => exact fails_ok _
  | reserved => exact fails_error (.unmapped ha hresolve)

end

/-! ### All operations -/

theorem checkOperand_misses {field : OperandKind × Nat} (hfield : field ∈ d.fields) :
    Fails (Misses d s) (checkOperand d s field.1 field.2) := by
  have hkind := (List.of_mem_zip hfield).1
  rw [checkOperand]
  split
  next hregister => exact (within_misses (.register hregister hfield)).map _
  next =>
    split
    next hpointer => exact (pair_misses fun _ => hpointer ▸ hkind).map _
    next => exact fails_ok _

theorem ofOperation_misses : Fails (Misses d s) (ofOperation d s layout) := by
  have hneeds (hd : d.Complete) : d.instruction.Complete := hd.row
  simp only [Instruction.Complete] at hneeds
  cases hop : d.instruction.operation <;>
    simp only [hop, Operation.needs, List.forall_mem_cons] at hneeds <;>
    simp only [List.mem_cons, List.not_mem_nil, or_false, exists_eq_or_imp, exists_eq_left,
      false_implies, implies_true, and_true] at hneeds <;>
    simp only [ofOperation, hop]
  case nop | stop => exact fails_ok _
  case add | addWithCarry | subtract | subtractWithCarry | and | or | xor =>
    exact (registerIndex_misses rfl fun hd => (hneeds hd).1).bind fun _ _ =>
      (second_misses fun hd => (hneeds hd).2).bind fun _ _ => fails_ok _
  case compare =>
    exact (register_misses rfl fun hd => (hneeds hd).1).bind fun _ _ =>
      (second_misses fun hd => (hneeds hd).2).bind fun _ _ => fails_ok _
  case addWord | subtractWord =>
    exact (pair_misses fun hd => (hneeds hd).1).bind fun _ _ =>
      (immediate_misses fun hd => (hneeds hd).2).bind fun _ _ => fails_ok _
  case increment | decrement | negate | complement | shiftLeft | shiftRight | arithmeticShiftRight
      | rotateRight =>
    exact (registerIndex_misses rfl hneeds).bind fun _ _ => fails_ok _
  case move =>
    exact (second_misses fun hd => (hneeds hd).2).bind fun _ _ =>
      (registerIndex_misses rfl fun hd => (hneeds hd).1).bind fun _ _ => fails_ok _
  case load =>
    exact (address_misses fun hd => (hneeds hd).2).bind fun _ ha =>
      (within_misses (.ram ha)).bind fun _ _ =>
        (registerIndex_misses rfl fun hd => (hneeds hd).1).bind fun _ _ => fails_ok _
  case store =>
    exact (address_misses fun hd => (hneeds hd).2).bind fun _ ha =>
      (register_misses rfl fun hd => (hneeds hd).1).bind fun _ _ =>
        (within_misses (.ram ha)).bind fun _ _ => fails_ok _
  case push =>
    exact (register_misses rfl hneeds).bind fun _ _ => (push_misses _).bind fun _ _ => fails_ok _
  case pop =>
    exact top_misses.bind fun _ _ => (registerIndex_misses rfl hneeds).bind fun _ _ => fails_ok _
  case input =>
    exact (cell_misses fun hd => (hneeds hd).2).bind fun _ ha =>
      (input_misses (by rw [hop]; decide) (mem_operands_of_cell ha)).bind fun _ _ =>
        (registerIndex_misses rfl fun hd => (hneeds hd).1).bind fun _ _ => fails_ok _
  case output =>
    exact (cell_misses fun hd => (hneeds hd).2).bind fun _ ha =>
      (register_misses rfl fun hd => (hneeds hd).1).bind fun _ _ =>
        (output_misses (by rw [hop]; decide) (mem_operands_of_cell ha) _).bind fun _ _ => fails_ok _
  case setPin | clearPin => exact pin_misses (by rw [hop]; decide) hneeds _
  case setFlag | clearFlag => exact (statusBit_misses hneeds).bind fun _ _ => fails_ok _
  case bitStore =>
    exact (registerBit_misses (by rw [hop]; decide) fun hd => (hneeds hd).2).bind fun _ _ =>
      (register_misses rfl fun hd => (hneeds hd).1).bind fun _ _ => fails_ok _
  case bitLoad =>
    exact (registerBit_misses (by rw [hop]; decide) fun hd => (hneeds hd).2).bind fun _ _ =>
      (registerIndex_misses rfl fun hd => (hneeds hd).1).bind fun _ _ => fails_ok _
  case branchIfSet | branchIfClear =>
    exact branch_misses (fun hd => (hneeds hd).1) (fun hd => (hneeds hd).2) _
  case jump =>
    split
    next hhas => exact (relative_misses fun _ => Decoded.has_iff.1 hhas).bind fun _ _ => fails_ok _
    next hhas =>
      have haddress (hd : d.Complete) : .address ∈ d.instruction.operands :=
        (hneeds hd).resolve_left fun h => hhas (Decoded.has_iff.2 h)
      exact (cell_misses haddress).bind fun _ _ => fails_ok _
  case call =>
    exact (cell_misses hneeds).bind fun _ _ => (push_misses _).bind fun _ _ => fails_ok _
  case ret => exact top_misses.bind fun _ _ => fails_ok _

/-- What an instruction that has no plan goes without. -/
theorem of_misses : Fails (Misses d s) (Plan.of d s layout) :=
  (fails_forM fun _ hfield => checkOperand_misses hfield).bind fun _ _ => ofOperation_misses

/-- What an instruction that has no plan is told. -/
theorem of_reports : Fails (Reports d s) (Plan.of d s layout) :=
  fun fault h => (of_misses fault h).reports

end Plan

end Microcontroller
