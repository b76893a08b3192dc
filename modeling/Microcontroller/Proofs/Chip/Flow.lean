import Microcontroller.Proofs.Chip.Place
/-!
# Where a chip goes on

Only control flow and the end of a program keep a chip from going on at the next instruction. No
write moves the instruction pointer or the cycle counter; after an instruction the pointer stands
where its plan says, counted from where it stood before, and the counter is one further.
-/

namespace Microcontroller

namespace Plan

variable {d : Decoded} {s : Storage} {layout : FlagLayout} {plan : Plan}

/-- An operation that is not for control flow has a plan that goes on at the next instruction. -/
theorem Shape.flow_eq_next (h : Shape d s plan)
    (hflow : d.instruction.operation.isControlFlow = false)
    (hstop : d.instruction.operation ≠ .stop) : plan.flow = .next := by
  cases h with
  | goTo hop =>
    have hcontrol := (by decide : ∀ op ∈ [Operation.branchIfSet, .branchIfClear, .jump],
      op.isControlFlow = true) _ hop
    rw [hflow] at hcontrol
    cases hcontrol
  | call hop | ret hop =>
    rw [hop] at hflow
    cases hflow
  | stop hop => exact absurd hop hstop
  | _ => rfl

/-- Only the operation that ends a program has a plan that does. -/
theorem Shape.flow_eq_stop_iff (h : Shape d s plan) :
    plan.flow = .stop ↔ d.instruction.operation = .stop := by
  cases h with
  | stop hop => exact iff_of_true rfl hop
  | nothing hop | outcome hop | pairOutcome hop | word hop | goTo hop =>
    refine iff_of_false nofun fun hstop => ?_
    rw [hstop] at hop
    exact absurd hop (by decide)
  | comparison hop | pop hop | store hop | push hop | call hop | output hop | bitStore hop | ret hop =>
    exact iff_of_false nofun fun hstop => nomatch hop.symm.trans hstop
  | @pin _ value hop | @statusBit _ value hop =>
    refine iff_of_false nofun fun hstop => ?_
    cases value <;> cases hop.symm.trans hstop

end Plan

namespace Storage

theorem ip_apply (s : Storage) (write : Write) : (s.apply write).ip = s.ip := by
  cases write <;> rfl

theorem cycles_apply (s : Storage) (write : Write) : (s.apply write).cycles = s.cycles := by
  cases write <;> rfl

theorem ip_afterPlan (layout : FlagLayout) (plan : Plan) (s : Storage) :
    (s.afterPlan layout plan).ip = s.ip := by
  rw [afterPlan_eq]
  exact foldl_apply_eq Storage.ip ip_apply _ s

theorem cycles_afterPlan (layout : FlagLayout) (plan : Plan) (s : Storage) :
    (s.afterPlan layout plan).cycles = s.cycles := by
  rw [afterPlan_eq]
  exact foldl_apply_eq Storage.cycles cycles_apply _ s

theorem cycles_setFlags (layout : FlagLayout) (flags : List (Flag × Bool)) (s : Storage) :
    (setFlags layout flags s).2.cycles = s.cycles := by
  induction flags generalizing s with
  | nil => rfl
  | cons f rest ih =>
    rw [setFlags]
    split
    · exact ih _
    · rfl

/-- Executing an instruction does not count it, whatever becomes of it. -/
theorem cycles_execute (layout : FlagLayout) (d : Decoded) (s : Storage) :
    (s.execute layout d).2.cycles = s.cycles := by
  rw [execute]
  split
  next plan _ =>
    have hflags := cycles_setFlags layout plan.flags (plan.writes.foldl apply s)
    exact hflags.trans (foldl_apply_eq Storage.cycles cycles_apply plan.writes s)
  · rfl

end Storage

namespace Chip

variable (layout : FlagLayout) (plan : Plan) (c : Chip) (flow : Flow) (size : Nat)

theorem ip_advance :
    ({ c with storage := c.storage.afterPlan layout plan }.advance flow size).storage.ip =
      match flow with
      | .jump target => target
      | .next | .stop => (c.storage.ip + size) % c.width.capacity := by
  rw [← Width.wrap_natCast]
  cases flow <;> simp only [advance, after, Storage.ip_afterPlan, Int.natCast_add]

theorem cycles_advance :
    ({ c with storage := c.storage.afterPlan layout plan }.advance flow size).storage.cycles =
      c.storage.cycles + 1 := by
  simp only [advance, Storage.countCycle, Storage.cycles_afterPlan]

end Chip

end Microcontroller
