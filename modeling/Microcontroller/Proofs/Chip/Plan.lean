import Microcontroller.Chip.Plan
import Microcontroller.Proofs.Isa.Pointer
import Microcontroller.Proofs.Result
/-!
# When planning succeeds

For each step of planning, the condition under which it succeeds and what it then gives. The
equations are meant for rewriting: with them, that an instruction has a plan unfolds into the
conditions on its operands and on the storage, and what the plan is.
-/

namespace Microcontroller

variable {d : Decoded} {s : Storage}

theorem Decoded.mem_of_operand? {kind : OperandKind} {x : Nat} (h : d.operand? kind = some x) :
    (kind, x) ∈ d.fields := by
  obtain ⟨before, after, hsplit, -⟩ := List.lookup_eq_some_iff.1 h
  rw [hsplit]
  exact List.mem_append_right _ List.mem_cons_self

theorem Decoded.mem_operands {kind : OperandKind} {x : Nat} (h : d.operand? kind = some x) :
    x ∈ d.operands :=
  (List.of_mem_zip (mem_of_operand? h)).2

namespace Plan

@[simp] theorem cell_ok_iff {kind : OperandKind} {x : Nat} :
    cell d s kind = .ok x ↔ d.operand? kind = some x := by
  rw [cell]
  cases d.operand? kind <;> simp

@[simp] theorem within_ok_iff {region : Region} {len index i : Nat} :
    within s region len index = .ok i ↔ index < len ∧ index = i := by
  rw [within]
  split
  next h => simp only [Except.ok.injEq, h, true_and]
  next h => simp only [reduceCtorEq, h, false_and]

@[simp] theorem registerIndex_ok_iff {kind : OperandKind} {i : Nat} :
    registerIndex d s kind = .ok i ↔ d.operand? kind = some i ∧ i < s.registers.size := by
  simp only [registerIndex, bind_ok_iff, cell_ok_iff, within_ok_iff, ← and_assoc, exists_eq_right]

@[simp] theorem register_ok_iff {kind : OperandKind} {r : Nat} :
    register d s kind = .ok r ↔
      ∃ i, (d.operand? kind = some i ∧ i < s.registers.size) ∧ registerWord s i = r := by
  simp only [register, bind_ok_iff, registerIndex_ok_iff, pure_ok_iff]

@[simp] theorem immediate_ok_iff {k : Nat} :
    immediate d s = .ok k ↔ ∃ x, d.operand? .immediate = some x ∧ d.width.truncate x = k := by
  simp only [immediate, bind_ok_iff, cell_ok_iff, pure_ok_iff]

@[simp] theorem second_ok_iff {b : Nat} :
    second d s = .ok b ↔ if d.has .source then register d s .source = .ok b
      else immediate d s = .ok b := by
  rw [second]
  split <;> rfl

@[simp] theorem pair_ok_iff {p : Nat × Nat} :
    pair d s = .ok p ↔ ∃ x, d.operand? .pointer = some x ∧
      (x ≤ 2 ∧ 6 - 2 * x ≤ s.registers.size) ∧
        (s.registers.size - (6 - 2 * x), s.registers.size - (6 - 2 * x) + 1) = p := by
  simp only [pair, bind_ok_iff, cell_ok_iff]
  refine exists_congr fun x => and_congr_right fun _ => ?_
  rw [← Pointer.pair?_ofIndex?_eq_some_iff]
  cases (Pointer.ofIndex? x).bind (·.pair? s.registers.size) <;> simp

/-- Both registers of a pair are there. -/
theorem pair_lt {p : Nat × Nat} (h : pair d s = .ok p) :
    p.1 < s.registers.size ∧ p.2 < s.registers.size := by
  obtain ⟨x, -, ⟨hx, hle⟩, rfl⟩ := pair_ok_iff.1 h
  omega

@[simp] theorem registerBit_ok_iff {b : Nat} :
    registerBit d s = .ok b ↔ d.operand? .bit = some b ∧ b < d.width.bits := by
  simp only [registerBit, bind_ok_iff, cell_ok_iff, within_ok_iff, ← and_assoc, exists_eq_right]

@[simp] theorem address_ok_iff {a : Nat} :
    address d s = .ok a ↔ if d.has .pointer then ∃ p, pair d s = .ok p ∧ pairWord d s p = a
      else d.operand? .address = some a := by
  rw [address]
  split
  · rw [bind_ok_iff]
    exact exists_congr fun p => and_congr_right fun _ => pure_ok_iff
  · exact cell_ok_iff

@[simp] theorem relative_ok_iff {target : Nat} :
    relative d s = .ok target ↔
      ∃ offset, d.offset? = some offset ∧ d.width.wrap (s.ip + offset) = target := by
  rw [relative]
  cases d.offset? <;> simp

/-- The pre-check of one operand: a register is there, and so is the pair of a pointer. -/
@[simp] theorem checkOperand_ok_iff {kind : OperandKind} {x : Nat} {u : Unit} :
    checkOperand d s kind x = .ok u ↔
      (kind.isRegister → x < s.registers.size) ∧ (kind = .pointer → ∃ p, pair d s = .ok p) := by
  rw [checkOperand]
  split
  next h =>
    have hp : kind ≠ .pointer := by
      intro hp
      rw [hp] at h
      cases h
    simp only [map_ok_iff, within_ok_iff, h, hp, exists_and_left, exists_eq', and_true,
      false_implies, true_implies]
  next h =>
    split
    next hp => simp [hp, OperandKind.isRegister]
    next hp => simp [h, hp]

@[simp] theorem checkRegisters_ok_iff {u : Unit} :
    checkRegisters d s = .ok u ↔ ∀ kind x, (kind, x) ∈ d.fields →
      (kind.isRegister → x < s.registers.size) ∧ (kind = .pointer → ∃ p, pair d s = .ok p) := by
  simp only [checkRegisters, forM_ok_iff, checkOperand_ok_iff, Prod.forall]

/-! ### Arithmetic -/

@[simp] theorem unary_ok_iff {f : Nat → Alu.Outcome} {plan : Plan} :
    unary d s f = .ok plan ↔ ∃ rd, registerIndex d s .destination = .ok rd ∧
      ⟨[.register rd (f (registerWord s rd)).value], declared d (f (registerWord s rd)), .next⟩
        = plan := by
  simp only [unary, bind_ok_iff, pure_ok_iff]

@[simp] theorem binary_ok_iff {f : Nat → Nat → Alu.Outcome} {plan : Plan} :
    binary d s f = .ok plan ↔ ∃ rd, registerIndex d s .destination = .ok rd ∧
      ∃ b, second d s = .ok b ∧
        ⟨[.register rd (f (registerWord s rd) b).value], declared d (f (registerWord s rd) b), .next⟩
          = plan := by
  simp only [binary, bind_ok_iff, pure_ok_iff]

@[simp] theorem comparison_ok_iff {f : Nat → Nat → Alu.Outcome} {plan : Plan} :
    comparison d s f = .ok plan ↔ ∃ a, register d s .destination = .ok a ∧
      ∃ b, second d s = .ok b ∧ ⟨[], declared d (f a b), .next⟩ = plan := by
  simp only [comparison, bind_ok_iff, pure_ok_iff]

@[simp] theorem onPair_ok_iff {f : Nat → Nat → Alu.Outcome} {plan : Plan} :
    onPair d s f = .ok plan ↔ ∃ p, pair d s = .ok p ∧ ∃ k, immediate d s = .ok k ∧
      ⟨[.register p.1 ((f (pairWord d s p) k).value % d.width.capacity),
          .register p.2 ((f (pairWord d s p) k).value / d.width.capacity)],
        declared d (f (pairWord d s p) k), .next⟩ = plan := by
  simp only [onPair, bind_ok_iff, pure_ok_iff]

/-! ### Stack and I/O -/

@[simp] theorem push_ok_iff {value : Nat} {writes : List Write} :
    push d s value = .ok writes ↔ d.width.wrap ((s.sp : Int) - 1) < s.memory.ram.size ∧
      [.ram (d.width.wrap ((s.sp : Int) - 1)) value,
        .stackPointer (d.width.wrap ((s.sp : Int) - 1))] = writes := by
  simp only [push, bind_ok_iff, within_ok_iff, pure_ok_iff, and_assoc, exists_and_left,
    exists_eq_left']

@[simp] theorem top_ok_iff {value : Nat} :
    top s = .ok value ↔ s.sp < s.memory.ram.size ∧ ramWord s s.sp = value := by
  simp only [top, bind_ok_iff, within_ok_iff, pure_ok_iff, and_assoc, exists_and_left,
    exists_eq_left']

@[simp] theorem pin_ok_iff {value : Bool} {plan : Plan} :
    pin d s value = .ok plan ↔ ∃ b, (d.operand? .bit = some b ∧ b < s.io.digital.len) ∧
      write [.pin b value] = plan := by
  simp only [pin, bind_ok_iff, cell_ok_iff, within_ok_iff, pure_ok_iff]
  constructor
  · intro h
    obtain ⟨b, h, _, ⟨hlt, rfl⟩, hplan⟩ := h
    exact ⟨b, ⟨h, hlt⟩, hplan⟩
  · intro h
    obtain ⟨b, ⟨h, hlt⟩, hplan⟩ := h
    exact ⟨b, h, b, ⟨hlt, rfl⟩, hplan⟩

@[simp] theorem statusBit_ok_iff {b : Nat} :
    statusBit d s = .ok b ↔ d.operand? .flagBit = some b ∧ b < s.status.len := by
  simp only [statusBit, bind_ok_iff, cell_ok_iff, within_ok_iff, ← and_assoc, exists_eq_right]

@[simp] theorem branch_ok_iff {wanted : Bool} {plan : Plan} :
    branch d s wanted = .ok plan ↔ ∃ b, (d.operand? .flagBit = some b ∧ b < s.status.len) ∧
      if s.status.bit b = wanted then ∃ target, relative d s = .ok target ∧ goTo target = plan
      else nothing = plan := by
  simp only [branch, bind_ok_iff, statusBit_ok_iff]
  refine exists_congr fun b => and_congr_right fun _ => ?_
  split <;> simp only [bind_ok_iff, pure_ok_iff]

/-! ### Single bits -/

theorem testBit_withBit (word bit : Nat) (value : Bool) (i : Nat) :
    (withBit word bit value).testBit i = if i = bit then value else word.testBit i := by
  rw [withBit]
  by_cases hold : word.testBit bit = value
  · rw [if_pos hold]
    by_cases hi : i = bit
    · rw [if_pos hi, hi, hold]
    · rw [if_neg hi]
  · rw [if_neg hold, Nat.testBit_xor, Nat.testBit_two_pow]
    by_cases hi : i = bit
    · rw [if_pos hi, hi, decide_eq_true rfl, Bool.xor_true]
      exact Bool.not_eq.2 hold
    · rw [if_neg hi, decide_eq_false (Ne.symm hi), Bool.xor_false]

end Plan

end Microcontroller
