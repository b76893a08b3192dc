import Mathlib.Data.List.Nodup
import Mathlib.Tactic.MkIffOfInductiveProp
import Microcontroller.Proofs.Chip.Plan
/-!
# What an instruction demands

An operation needs certain operands, and `Decoded.Complete` says that they are there. For such an
instruction planning comes down to two questions: do its registers exist, and does storage have the
one further place that the operation goes to. If either is answered with no, the fault says what was
missing, and it is never that the instruction is illegal.
-/

namespace Microcontroller

/-- The operands an operation needs, one of each group. -/
def Operation.needs : Operation → List (List OperandKind)
  | nop | ret | stop => []
  | add | addWithCarry | subtract | subtractWithCarry | compare | and | or | xor | move =>
    [[.destination], [.source, .immediate]]
  | addWord | subtractWord => [[.pointer], [.immediate]]
  | increment | decrement | negate | complement | shiftLeft | shiftRight | arithmeticShiftRight
  | rotateRight | pop => [[.destination]]
  | load => [[.destination], [.pointer, .address]]
  | store => [[.source], [.pointer, .address]]
  | push => [[.source]]
  | input => [[.destination], [.ioAddress]]
  | output => [[.source], [.ioAddress]]
  | setPin | clearPin => [[.bit]]
  | setFlag | clearFlag => [[.flagBit]]
  | bitStore | bitLoad => [[.destination], [.bit]]
  | branchIfSet | branchIfClear => [[.flagBit], [.offset]]
  | jump => [[.offset, .address]]
  | call => [[.address]]

/-- The row names an operand for every need of its operation. -/
def Instruction.Complete (i : Instruction) : Prop :=
  ∀ kinds ∈ i.operation.needs, ∃ kind ∈ kinds, kind ∈ i.operands

instance (i : Instruction) : Decidable i.Complete :=
  inferInstanceAs (Decidable (∀ kinds ∈ i.operation.needs, ∃ kind ∈ kinds, kind ∈ i.operands))

/-- An instruction with a cell for every operand, and an operand for every need. -/
structure Decoded.Complete (d : Decoded) : Prop where
  cells : d.operands.length = d.instruction.operands.length
  row : d.instruction.Complete

/-- The banks have something at an address. -/
def IoBanks.Answers (b : IoBanks) (address : Nat) : Prop :=
  match AddressMap.resolve address with
  | .digital group => group < b.digital.units.size
  | .analog channel => channel < b.analog.size
  | .stackPointer => True
  | .mapped channel => channel < b.mapped.size
  | .reserved => False

variable {d : Decoded} {s : Storage} {layout : FlagLayout}

theorem Decoded.has_iff {kind : OperandKind} : d.has kind ↔ kind ∈ d.instruction.operands :=
  List.contains_iff_mem

theorem Decoded.Complete.map_fst_fields (hd : d.Complete) :
    d.fields.map Prod.fst = d.instruction.operands :=
  List.map_fst_zip (Nat.le_of_eq hd.cells.symm)

theorem Decoded.Complete.exists_operand? (hd : d.Complete) {kind : OperandKind}
    (hkind : kind ∈ d.instruction.operands) : ∃ x, d.operand? kind = some x := by
  rw [← Option.ne_none_iff_exists', ne_eq, operand?, List.lookup_eq_none_iff]
  intro hnone
  rw [← hd.map_fst_fields] at hkind
  obtain ⟨field, hfield, rfl⟩ := List.mem_map.1 hkind
  simpa using hnone field hfield

/-- Where no kind of operand comes twice, the cell of a kind is the one beside it. -/
theorem Decoded.Complete.operand?_eq_some_iff (hd : d.Complete)
    (hnodup : d.instruction.operands.Nodup) {kind : OperandKind} {x : Nat} :
    d.operand? kind = some x ↔ (kind, x) ∈ d.fields := by
  constructor
  · exact mem_of_operand?
  · intro hx
    have hkind : kind ∈ d.instruction.operands := (List.of_mem_zip hx).1
    obtain ⟨y, hy⟩ := hd.exists_operand? hkind
    rw [← hd.map_fst_fields] at hnodup
    have hxy := List.inj_on_of_nodup_map hnodup hx (mem_of_operand? hy) rfl
    cases hxy
    exact hy

/-- What holds of the operand of a kind holds of all of them, if there is one and no more. -/
theorem Decoded.Complete.exists_operand?_and_iff (hd : d.Complete)
    (hnodup : d.instruction.operands.Nodup) {kind : OperandKind}
    (hkind : kind ∈ d.instruction.operands) {P : Nat → Prop} :
    (∃ x, d.operand? kind = some x ∧ P x) ↔ ∀ x, (kind, x) ∈ d.fields → P x := by
  obtain ⟨x, hx⟩ := hd.exists_operand? hkind
  constructor
  · intro ⟨y, hy, hP⟩ z hz
    have hz := (hd.operand?_eq_some_iff hnodup).2 hz
    cases hy.symm.trans hz
    exact hP
  · intro h
    exact ⟨x, hx, h x (mem_of_operand? hx)⟩

namespace Plan

/-- What an instruction demands of storage beyond the registers it names. -/
@[mk_iff]
structure Demands (d : Decoded) (s : Storage) : Prop where
  ram : d.instruction.operation ∈ [.load, .store] →
    ∃ a, address d s = .ok a ∧ a < s.memory.ram.size
  push : d.instruction.operation ∈ [.push, .call] →
    d.width.wrap ((s.sp : Int) - 1) < s.memory.ram.size
  pop : d.instruction.operation ∈ [.pop, .ret] → s.sp < s.memory.ram.size
  io : d.instruction.operation ∈ [.input, .output] →
    ∃ a, d.operand? .ioAddress = some a ∧ s.io.Answers a
  pin : d.instruction.operation ∈ [.setPin, .clearPin] →
    ∃ b, d.operand? .bit = some b ∧ b < s.io.digital.len
  statusBit : d.instruction.operation ∈ [.setFlag, .clearFlag, .branchIfSet, .branchIfClear] →
    ∃ b, d.operand? .flagBit = some b ∧ b < s.status.len
  registerBit : d.instruction.operation ∈ [.bitStore, .bitLoad] →
    ∃ b, d.operand? .bit = some b ∧ b < d.width.bits

/-! ### Operands that are there -/

section

variable (hd : d.Complete)

include hd

theorem exists_cell {kind : OperandKind} (hkind : kind ∈ d.instruction.operands) :
    ∃ x, cell d s kind = .ok x := by
  obtain ⟨x, hx⟩ := hd.exists_operand? hkind
  exact ⟨x, cell_ok_iff.2 hx⟩

theorem exists_relative (hkind : .offset ∈ d.instruction.operands) :
    ∃ target, relative d s = .ok target := by
  obtain ⟨x, hx⟩ := hd.exists_operand? hkind
  exact ⟨_, relative_ok_iff.2 ⟨_, by rw [Decoded.offset?, hx, Option.map_some], rfl⟩⟩

variable (hr : checkRegisters d s = .ok ())

include hr

theorem exists_registerIndex {kind : OperandKind} (hkind : kind ∈ d.instruction.operands)
    (hregister : kind.isRegister) : ∃ i, registerIndex d s kind = .ok i := by
  obtain ⟨x, hx⟩ := hd.exists_operand? hkind
  have hlt := (checkRegisters_ok_iff.1 hr kind x (Decoded.mem_of_operand? hx)).1 hregister
  exact ⟨x, registerIndex_ok_iff.2 ⟨hx, hlt⟩⟩

theorem exists_register {kind : OperandKind} (hkind : kind ∈ d.instruction.operands)
    (hregister : kind.isRegister) : ∃ r, register d s kind = .ok r := by
  obtain ⟨i, hi⟩ := exists_registerIndex hd hr hkind hregister
  exact ⟨_, register_ok_iff.2 ⟨i, registerIndex_ok_iff.1 hi, rfl⟩⟩

theorem exists_pair (hkind : .pointer ∈ d.instruction.operands) : ∃ p, pair d s = .ok p := by
  obtain ⟨x, hx⟩ := hd.exists_operand? hkind
  exact (checkRegisters_ok_iff.1 hr _ x (Decoded.mem_of_operand? hx)).2 rfl

theorem exists_second
    (hkind : .source ∈ d.instruction.operands ∨ .immediate ∈ d.instruction.operands) :
    ∃ b, second d s = .ok b := by
  by_cases hsource : .source ∈ d.instruction.operands
  · obtain ⟨r, hr⟩ := exists_register hd hr hsource rfl
    exact ⟨r, second_ok_iff.2 (by rwa [if_pos (Decoded.has_iff.2 hsource)])⟩
  · obtain ⟨x, hx⟩ := hd.exists_operand? (hkind.resolve_left hsource)
    have hhas : ¬ d.has .source = true := fun h => hsource (Decoded.has_iff.1 h)
    exact ⟨_, second_ok_iff.2 (by rw [if_neg hhas]; exact immediate_ok_iff.2 ⟨x, hx, rfl⟩)⟩

end

theorem exists_input_iff {a : Nat} : (∃ v, input s a = .ok v) ↔ s.io.Answers a := by
  rw [input, IoBanks.Answers]
  cases AddressMap.resolve a <;> simp only [bind_ok_iff, within_ok_iff, pure_ok_iff, reduceCtorEq,
    exists_false, Except.ok.injEq, and_assoc, exists_and_left, exists_eq_left', exists_eq', and_true]

theorem exists_output_iff {a v : Nat} : (∃ w, output d s a v = .ok w) ↔ s.io.Answers a := by
  rw [output, IoBanks.Answers]
  cases AddressMap.resolve a <;> simp only [bind_ok_iff, within_ok_iff, pure_ok_iff, reduceCtorEq,
    exists_false, Except.ok.injEq, and_assoc, exists_and_left, exists_eq_left', exists_eq', and_true]

theorem exists_branch_iff {wanted : Bool} (htarget : ∃ target, relative d s = .ok target) :
    (∃ plan, branch d s wanted = .ok plan) ↔
      ∃ b, d.operand? .flagBit = some b ∧ b < s.status.len := by
  simp only [branch_ok_iff]
  constructor
  · intro h
    obtain ⟨_, b, hb, _⟩ := h
    exact ⟨b, hb⟩
  · intro h
    obtain ⟨b, hb⟩ := h
    obtain ⟨target, htarget⟩ := htarget
    by_cases hbit : s.status.bit b = wanted
    · exact ⟨_, b, hb, by rw [if_pos hbit]; exact ⟨target, htarget, rfl⟩⟩
    · exact ⟨_, b, hb, by rw [if_neg hbit]⟩

/-! ### When there is a plan -/

section

variable (hd : d.Complete) (hr : checkRegisters d s = .ok ())

include hd hr

theorem exists_ofOperation_iff : (∃ plan, ofOperation d s layout = .ok plan) ↔ Demands d s := by
  have hneeds := hd.row
  -- Once the operation is known, the needs are plain memberships, and of the demands only the one
  -- that belongs to it remains.
  rw [Instruction.Complete] at hneeds
  cases hop : d.instruction.operation <;>
    simp only [hop, Operation.needs, List.forall_mem_cons] at hneeds <;>
    simp only [List.mem_cons, List.not_mem_nil, or_false, exists_eq_or_imp, exists_eq_left,
      false_implies, implies_true, and_true] at hneeds <;>
    simp only [ofOperation, demands_iff, hop, List.mem_cons, List.not_mem_nil, reduceCtorEq, or_self,
      or_true, or_false, false_implies, true_implies, and_true, true_and]
  case nop | stop => exact iff_of_true ⟨_, rfl⟩ trivial
  case add | addWithCarry | subtract | subtractWithCarry | and | or | xor =>
    obtain ⟨rd, hrd⟩ := exists_registerIndex hd hr hneeds.1 rfl
    obtain ⟨b, hb⟩ := exists_second hd hr hneeds.2
    exact iff_of_true ⟨_, binary_ok_iff.2 ⟨rd, hrd, b, hb, rfl⟩⟩ trivial
  case compare =>
    obtain ⟨a, ha⟩ := exists_register hd hr hneeds.1 rfl
    obtain ⟨b, hb⟩ := exists_second hd hr hneeds.2
    exact iff_of_true ⟨_, comparison_ok_iff.2 ⟨a, ha, b, hb, rfl⟩⟩ trivial
  case addWord | subtractWord =>
    obtain ⟨p, hp⟩ := exists_pair hd hr hneeds.1
    obtain ⟨k, hk⟩ := hd.exists_operand? hneeds.2
    exact iff_of_true ⟨_, onPair_ok_iff.2 ⟨p, hp, _, immediate_ok_iff.2 ⟨k, hk, rfl⟩, rfl⟩⟩ trivial
  case increment | decrement | negate | complement | shiftLeft | shiftRight | arithmeticShiftRight
      | rotateRight =>
    obtain ⟨rd, hrd⟩ := exists_registerIndex hd hr hneeds rfl
    exact iff_of_true ⟨_, unary_ok_iff.2 ⟨rd, hrd, rfl⟩⟩ trivial
  case move =>
    obtain ⟨rd, hrd⟩ := exists_registerIndex hd hr hneeds.1 rfl
    obtain ⟨b, hb⟩ := exists_second hd hr hneeds.2
    exact iff_of_true ⟨_, bind_ok_iff.2 ⟨b, hb, bind_ok_iff.2 ⟨rd, hrd, rfl⟩⟩⟩ trivial
  case load =>
    obtain ⟨rd, hrd⟩ := exists_registerIndex hd hr hneeds.1 rfl
    simp only [bind_ok_iff, within_ok_iff, pure_ok_iff]
    constructor
    · intro h
      obtain ⟨_, a, ha, _, ⟨hlt, _⟩, _⟩ := h
      exact ⟨a, ha, hlt⟩
    · intro h
      obtain ⟨a, ha, hlt⟩ := h
      exact ⟨_, a, ha, a, ⟨hlt, rfl⟩, rd, hrd, rfl⟩
  case store =>
    obtain ⟨r, hr⟩ := exists_register hd hr hneeds.1 rfl
    simp only [bind_ok_iff, within_ok_iff, pure_ok_iff]
    constructor
    · intro h
      obtain ⟨_, a, ha, _, _, _, ⟨hlt, _⟩, _⟩ := h
      exact ⟨a, ha, hlt⟩
    · intro h
      obtain ⟨a, ha, hlt⟩ := h
      exact ⟨_, a, ha, r, hr, a, ⟨hlt, rfl⟩, rfl⟩
  case push =>
    obtain ⟨r, hr⟩ := exists_register hd hr hneeds rfl
    simp only [bind_ok_iff, push_ok_iff, pure_ok_iff]
    constructor
    · intro h
      obtain ⟨_, _, _, _, ⟨hlt, _⟩, _⟩ := h
      exact hlt
    · intro hlt
      exact ⟨_, r, hr, _, ⟨hlt, rfl⟩, rfl⟩
  case call =>
    obtain ⟨target, htarget⟩ := exists_cell hd hneeds
    simp only [bind_ok_iff, push_ok_iff, pure_ok_iff]
    constructor
    · intro h
      obtain ⟨_, _, _, _, ⟨hlt, _⟩, _⟩ := h
      exact hlt
    · intro hlt
      exact ⟨_, target, htarget, _, ⟨hlt, rfl⟩, rfl⟩
  case pop =>
    obtain ⟨rd, hrd⟩ := exists_registerIndex hd hr hneeds rfl
    simp only [bind_ok_iff, top_ok_iff, pure_ok_iff]
    constructor
    · intro h
      obtain ⟨_, _, ⟨hlt, _⟩, _⟩ := h
      exact hlt
    · intro hlt
      exact ⟨_, _, ⟨hlt, rfl⟩, rd, hrd, rfl⟩
  case ret =>
    simp only [bind_ok_iff, top_ok_iff, pure_ok_iff]
    constructor
    · intro h
      obtain ⟨_, _, ⟨hlt, _⟩, _⟩ := h
      exact hlt
    · intro hlt
      exact ⟨_, _, ⟨hlt, rfl⟩, rfl⟩
  case input =>
    obtain ⟨rd, hrd⟩ := exists_registerIndex hd hr hneeds.1 rfl
    simp only [bind_ok_iff, cell_ok_iff, pure_ok_iff]
    constructor
    · intro h
      obtain ⟨_, a, ha, v, hv, _⟩ := h
      exact ⟨a, ha, exists_input_iff.1 ⟨v, hv⟩⟩
    · intro h
      obtain ⟨a, ha, hanswers⟩ := h
      obtain ⟨v, hv⟩ := exists_input_iff.2 hanswers
      exact ⟨_, a, ha, v, hv, rd, hrd, rfl⟩
  case output =>
    obtain ⟨r, hr⟩ := exists_register hd hr hneeds.1 rfl
    simp only [bind_ok_iff, cell_ok_iff, pure_ok_iff]
    constructor
    · intro h
      obtain ⟨_, a, ha, v, _, w, hw, _⟩ := h
      exact ⟨a, ha, exists_output_iff.1 ⟨w, hw⟩⟩
    · intro h
      obtain ⟨a, ha, hanswers⟩ := h
      obtain ⟨w, hw⟩ := exists_output_iff.2 hanswers
      exact ⟨_, a, ha, r, hr, w, hw, rfl⟩
  case setPin | clearPin =>
    simp only [pin_ok_iff]
    constructor
    · intro h
      obtain ⟨_, b, hb, -⟩ := h
      exact ⟨b, hb⟩
    · intro h
      obtain ⟨b, hb⟩ := h
      exact ⟨_, b, hb, rfl⟩
  case setFlag | clearFlag =>
    simp only [bind_ok_iff, statusBit_ok_iff, pure_ok_iff]
    constructor
    · intro h
      obtain ⟨_, b, hb, -⟩ := h
      exact ⟨b, hb⟩
    · intro h
      obtain ⟨b, hb⟩ := h
      exact ⟨_, b, hb, rfl⟩
  case bitStore =>
    obtain ⟨r, hr⟩ := exists_register hd hr hneeds.1 rfl
    simp only [bind_ok_iff, registerBit_ok_iff, pure_ok_iff]
    constructor
    · intro h
      obtain ⟨_, b, hb, -⟩ := h
      exact ⟨b, hb⟩
    · intro h
      obtain ⟨b, hb⟩ := h
      exact ⟨_, b, hb, r, hr, rfl⟩
  case bitLoad =>
    obtain ⟨rd, hrd⟩ := exists_registerIndex hd hr hneeds.1 rfl
    simp only [bind_ok_iff, registerBit_ok_iff, pure_ok_iff]
    constructor
    · intro h
      obtain ⟨_, b, hb, -⟩ := h
      exact ⟨b, hb⟩
    · intro h
      obtain ⟨b, hb⟩ := h
      exact ⟨_, b, hb, rd, hrd, rfl⟩
  case branchIfSet | branchIfClear =>
    exact exists_branch_iff (exists_relative hd hneeds.2)
  case jump =>
    split
    next hhas =>
      obtain ⟨target, htarget⟩ := exists_relative hd (Decoded.has_iff.1 hhas)
      exact iff_of_true ⟨_, bind_ok_iff.2 ⟨target, htarget, rfl⟩⟩ trivial
    next hhas =>
      have haddress := hneeds.resolve_left fun h => hhas (Decoded.has_iff.2 h)
      obtain ⟨target, htarget⟩ := exists_cell hd haddress
      exact iff_of_true ⟨_, bind_ok_iff.2 ⟨target, htarget, rfl⟩⟩ trivial

omit hr in
/-- An instruction with its operands has a plan if its registers exist and its demand is met. -/
theorem exists_of_iff : (∃ plan, Plan.of d s layout = .ok plan) ↔
    checkRegisters d s = .ok () ∧ Demands d s := by
  constructor
  · intro h
    obtain ⟨plan, hplan⟩ := h
    obtain ⟨_, hregisters, hplan⟩ := bind_ok_iff.1 hplan
    exact ⟨hregisters, (exists_ofOperation_iff hd hregisters).1 ⟨plan, hplan⟩⟩
  · intro h
    obtain ⟨hregisters, hdemands⟩ := h
    obtain ⟨plan, hplan⟩ := (exists_ofOperation_iff hd hregisters).2 hdemands
    exact ⟨plan, bind_ok_iff.2 ⟨(), hregisters, hplan⟩⟩

end

end Plan

end Microcontroller
