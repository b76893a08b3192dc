import Microcontroller.Proofs.Chip.Plan
/-!
# The shapes of plans

Thirty-eight operations make plans of sixteen shapes. `Plan.Shape` lists them, each with the
operations that make plans like it and with the checks that the places in it have passed. The words
that are written are left open, single bits are not. What all plans have in common is proved by going
through the shapes and not through the operations.
-/

namespace Microcontroller

/-- The operations that put an outcome into the destination register. -/
def Operation.computing : List Operation :=
  [add, addWithCarry, subtract, subtractWithCarry, increment, decrement, negate, and, or, xor,
    complement, shiftLeft, shiftRight, arithmeticShiftRight, rotateRight]

namespace Plan

inductive Shape (d : Decoded) (s : Storage) : Plan → Prop
  /-- Nothing to be done, or a branch that is not taken. -/
  | nothing (hop : d.instruction.operation ∈ [.nop, .branchIfSet, .branchIfClear]) :
      Shape d s nothing
  | outcome {rd : Nat} {o : Alu.Outcome} (hop : d.instruction.operation ∈ Operation.computing)
      (hrd : registerIndex d s .destination = .ok rd) :
      Shape d s ⟨[.register rd o.value], declared d o, .next⟩
  | comparison {o : Alu.Outcome} (hop : d.instruction.operation = .compare) :
      Shape d s ⟨[], declared d o, .next⟩
  | pairOutcome {p : Nat × Nat} {o : Alu.Outcome} {low high : Nat}
      (hop : d.instruction.operation ∈ [.addWord, .subtractWord]) (hp : pair d s = .ok p) :
      Shape d s ⟨[.register p.1 low, .register p.2 high], declared d o, .next⟩
  | word {rd value : Nat} (hop : d.instruction.operation ∈ [.move, .load, .input, .bitLoad])
      (hrd : registerIndex d s .destination = .ok rd) : Shape d s (write [.register rd value])
  | pop {rd value : Nat} (hop : d.instruction.operation = .pop)
      (hrd : registerIndex d s .destination = .ok rd) :
      Shape d s (write [.register rd value, drop d s])
  | store {a value : Nat} (hop : d.instruction.operation = .store) (ha : address d s = .ok a)
      (hlt : a < s.memory.ram.size) : Shape d s (write [.ram a value])
  | push {value : Nat} {writes : List Write} (hop : d.instruction.operation = .push)
      (hwrites : push d s value = .ok writes) : Shape d s (write writes)
  | call {target value : Nat} {writes : List Write} (hop : d.instruction.operation = .call)
      (htarget : cell d s .address = .ok target) (hwrites : push d s value = .ok writes) :
      Shape d s ⟨writes, [], .jump target⟩
  | output {a value : Nat} {w : Write} (hop : d.instruction.operation = .output)
      (ha : cell d s .ioAddress = .ok a) (hw : output d s a value = .ok w) : Shape d s (write [w])
  | pin {b : Nat} {value : Bool}
      (hop : d.instruction.operation = if value then .setPin else .clearPin)
      (hb : d.operand? .bit = some b) (hlt : b < s.io.digital.len) :
      Shape d s (write [.pin b value])
  | statusBit {b : Nat} {value : Bool}
      (hop : d.instruction.operation = if value then .setFlag else .clearFlag)
      (hb : statusBit d s = .ok b) : Shape d s (write [.status b value])
  | bitStore {rd b : Nat} (hop : d.instruction.operation = .bitStore)
      (hrd : registerIndex d s .destination = .ok rd) (hb : registerBit d s = .ok b) :
      Shape d s ⟨[], [(.transfer, (registerWord s rd).testBit b)], .next⟩
  | goTo {target : Nat} (hop : d.instruction.operation ∈ [.branchIfSet, .branchIfClear, .jump])
      (htarget : relative d s = .ok target ∨ cell d s .address = .ok target) :
      Shape d s (goTo target)
  | ret {target : Nat} (hop : d.instruction.operation = .ret) (htarget : top s = .ok target) :
      Shape d s ⟨[drop d s], [], .jump target⟩
  | stop (hop : d.instruction.operation = .stop) : Shape d s ⟨[], [], .stop⟩

variable {d : Decoded} {s : Storage} {layout : FlagLayout} {plan : Plan}

theorem unary_shape {f : Nat → Alu.Outcome} (hop : d.instruction.operation ∈ Operation.computing)
    (h : unary d s f = .ok plan) : Shape d s plan := by
  obtain ⟨rd, hrd, rfl⟩ := unary_ok_iff.1 h
  exact .outcome hop hrd

theorem binary_shape {f : Nat → Nat → Alu.Outcome} (hop : d.instruction.operation ∈ Operation.computing)
    (h : binary d s f = .ok plan) : Shape d s plan := by
  obtain ⟨rd, hrd, b, -, rfl⟩ := binary_ok_iff.1 h
  exact .outcome hop hrd

theorem onPair_shape {f : Nat → Nat → Alu.Outcome}
    (hop : d.instruction.operation ∈ [.addWord, .subtractWord]) (h : onPair d s f = .ok plan) :
    Shape d s plan := by
  obtain ⟨p, hp, k, -, rfl⟩ := onPair_ok_iff.1 h
  exact .pairOutcome hop hp

theorem pin_shape (value : Bool)
    (hop : d.instruction.operation = if value then .setPin else .clearPin)
    (h : pin d s value = .ok plan) : Shape d s plan := by
  obtain ⟨b, ⟨hb, hlt⟩, rfl⟩ := pin_ok_iff.1 h
  exact .pin hop hb hlt

theorem branch_shape {wanted : Bool}
    (hop : d.instruction.operation ∈ [.branchIfSet, .branchIfClear])
    (h : branch d s wanted = .ok plan) : Shape d s plan := by
  obtain ⟨b, -, h⟩ := branch_ok_iff.1 h
  split at h
  · obtain ⟨target, htarget, rfl⟩ := h
    have hop' := List.mem_append_left [.jump] hop
    exact .goTo hop' (.inl htarget)
  · exact h ▸ .nothing (List.mem_cons_of_mem _ hop)

/-- Every plan has one of the shapes, and its operation is one that goes with it. -/
theorem shape_of_ofOperation (h : ofOperation d s layout = .ok plan) : Shape d s plan := by
  cases hop : d.instruction.operation <;> simp only [ofOperation, hop] at h
  case nop => cases h; exact .nothing (by rw [hop]; decide)
  case stop => cases h; exact .stop hop
  case add | addWithCarry | subtract | subtractWithCarry | and | or | xor =>
    exact binary_shape (by rw [hop]; decide) h
  case increment | decrement | negate | complement | shiftLeft | shiftRight | arithmeticShiftRight
      | rotateRight => exact unary_shape (by rw [hop]; decide) h
  case compare =>
    obtain ⟨a, -, b, -, rfl⟩ := comparison_ok_iff.1 h
    exact .comparison hop
  case addWord | subtractWord => exact onPair_shape (by rw [hop]; decide) h
  case setPin => exact pin_shape true hop h
  case clearPin => exact pin_shape false hop h
  case branchIfSet | branchIfClear => exact branch_shape (by rw [hop]; decide) h
  -- The operations that follow check and write in an order of their own.
  case move =>
    obtain ⟨value, -, h⟩ := bind_ok_iff.1 h
    obtain ⟨rd, hrd, h⟩ := bind_ok_iff.1 h
    cases h
    exact .word (by rw [hop]; decide) hrd
  case load | input =>
    obtain ⟨_, -, h⟩ := bind_ok_iff.1 h
    obtain ⟨_, -, h⟩ := bind_ok_iff.1 h
    obtain ⟨rd, hrd, h⟩ := bind_ok_iff.1 h
    cases h
    exact .word (by rw [hop]; decide) hrd
  case bitLoad =>
    obtain ⟨b, -, h⟩ := bind_ok_iff.1 h
    obtain ⟨rd, hrd, h⟩ := bind_ok_iff.1 h
    cases h
    exact .word (by rw [hop]; decide) hrd
  case store =>
    obtain ⟨a, ha, h⟩ := bind_ok_iff.1 h
    obtain ⟨value, -, h⟩ := bind_ok_iff.1 h
    obtain ⟨i, hi, h⟩ := bind_ok_iff.1 h
    obtain ⟨hlt, rfl⟩ := within_ok_iff.1 hi
    cases h
    exact .store hop ha hlt
  case push =>
    obtain ⟨value, -, h⟩ := bind_ok_iff.1 h
    obtain ⟨writes, hwrites, h⟩ := bind_ok_iff.1 h
    cases h
    exact .push hop hwrites
  case pop =>
    obtain ⟨value, -, h⟩ := bind_ok_iff.1 h
    obtain ⟨rd, hrd, h⟩ := bind_ok_iff.1 h
    cases h
    exact .pop hop hrd
  case output =>
    obtain ⟨a, ha, h⟩ := bind_ok_iff.1 h
    obtain ⟨value, -, h⟩ := bind_ok_iff.1 h
    obtain ⟨w, hw, h⟩ := bind_ok_iff.1 h
    cases h
    exact .output hop ha hw
  case setFlag | clearFlag =>
    obtain ⟨b, hb, h⟩ := bind_ok_iff.1 h
    cases h
    exact .statusBit hop hb
  case bitStore =>
    obtain ⟨b, hb, h⟩ := bind_ok_iff.1 h
    obtain ⟨word, hword, h⟩ := bind_ok_iff.1 h
    obtain ⟨rd, hrd, rfl⟩ := register_ok_iff.1 hword
    cases h
    exact .bitStore hop (registerIndex_ok_iff.2 hrd) hb
  case jump =>
    split at h
    · obtain ⟨target, htarget, h⟩ := bind_ok_iff.1 h
      cases h
      exact .goTo (by rw [hop]; decide) (.inl htarget)
    · obtain ⟨target, htarget, h⟩ := bind_ok_iff.1 h
      cases h
      exact .goTo (by rw [hop]; decide) (.inr htarget)
  case call =>
    obtain ⟨target, htarget, h⟩ := bind_ok_iff.1 h
    obtain ⟨writes, hwrites, h⟩ := bind_ok_iff.1 h
    cases h
    exact .call hop htarget hwrites
  case ret =>
    obtain ⟨target, htarget, h⟩ := bind_ok_iff.1 h
    cases h
    exact .ret hop htarget

end Plan

end Microcontroller
