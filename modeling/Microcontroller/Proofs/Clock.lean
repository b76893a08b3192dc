import Mathlib.Algebra.Group.Int.Defs
import Mathlib.Algebra.Group.Nat.Defs
import Microcontroller.Clock
/-!
# Fast clocks

A tick is the largest number of nanoseconds that does not make a clock slower than it should be. A
clock of more than a thousand million cycles per second has ticks of none, and then every deadline has
passed as soon as it is set. With any other clock deadlines are in the future, so a driver waits before
each cycle, whenever the ones before were run and however long they took.
-/

namespace Microcontroller.Config

variable {config : Config}

theorem tick_bounds (h : 0 < config.speed) :
    config.tickNanos * config.speed ≤ 10 ^ 9 ∧ 10 ^ 9 < (config.tickNanos + 1) * config.speed :=
  ⟨Nat.div_mul_le_self _ _, (Nat.div_lt_iff_lt_mul h).1 (Nat.lt_succ_self _)⟩

theorem tickNanos_pos_iff (h : 0 < config.speed) : 0 < config.tickNanos ↔ config.speed ≤ 10 ^ 9 :=
  Nat.div_pos_iff.trans (and_iff_right h)

theorem le_nextDeadline (deadline now : Nat) :
    deadline + config.tickNanos ≤ config.nextDeadline deadline now := by
  rw [nextDeadline]
  split <;> omega

/-- The next deadline is in the future just if a tick takes time. -/
theorem lt_nextDeadline_iff {deadline now : Nat} (h : deadline ≤ now) :
    now < config.nextDeadline deadline now ↔ 0 < config.tickNanos := by
  rw [nextDeadline]
  split <;> omega

/-! ### A driver in time -/

/-- Of the cycles that a driver runs, each comes at least one tick after the deadline of the one
before, so the first `n` have taken `n` ticks. -/
theorem Paced.le_start {deadline : Nat} {cycles : List TimedCycle} (h : config.Paced deadline cycles)
    {n : Nat} {cycle : TimedCycle} (hn : cycles[n]? = some cycle) :
    deadline + n * config.tickNanos ≤ cycle.start := by
  induction h generalizing n with
  | stop => cases hn
  | @cycle deadline first rest due takes next ih =>
    cases n with
    | zero =>
      cases hn
      rw [Nat.zero_mul]
      exact due
    | succ n =>
      have hrest := ih hn
      have hnext := config.le_nextDeadline deadline first.done
      rw [Nat.succ_mul]
      omega

/-- If a tick takes time, so does the wait before each cycle. -/
theorem Paced.apart {deadline : Nat} {cycles : List TimedCycle} (h : config.Paced deadline cycles)
    (htick : 0 < config.tickNanos) : cycles.Pairwise fun before after => before.done < after.start := by
  induction h with
  | stop => exact .nil
  | @cycle deadline first rest due takes next ih =>
    refine .cons (fun later hlater => ?_) ih
    obtain ⟨n, hn⟩ := List.mem_iff_getElem?.1 hlater
    calc first.done < config.nextDeadline deadline first.done :=
          (lt_nextDeadline_iff (Nat.le_trans due takes)).2 htick
      _ ≤ config.nextDeadline deadline first.done + n * config.tickNanos := Nat.le_add_right ..
      _ ≤ later.start := next.le_start hn

end Microcontroller.Config
