import Microcontroller.Chip.Counter
import Microcontroller.Proofs.Chip.Reachable
import Microcontroller.Proofs.Chip.Run
/-!
# As far as the counters go

A cycle never takes anything from the count of cycles. So there was room for all of the cycles that a
chip has gone through if there is room for the last count, and the calls on a counter of 64 bits come to
what they come to on one without an end, unless the count at their end is past it.
-/

namespace Microcontroller.Chip

variable {α : Type} {c c' : Chip}

/-- A result with a chip whose count fits the counter. -/
def counted (r : α × Chip) : Except Overflow (α × Chip) :=
  if r.2.storage.cycles < 2 ^ 64 then .ok r else .error .cycles

theorem counted_of_lt {r : α × Chip} (h : r.2.storage.cycles < 2 ^ 64) : counted r = .ok r :=
  if_pos h

theorem counted_of_le {r : α × Chip} (h : 2 ^ 64 ≤ r.2.storage.cycles) :
    counted r = .error .cycles :=
  if_neg (Nat.not_lt.2 h)

theorem counted_ok_iff {r r' : α × Chip} :
    counted r = .ok r' ↔ r = r' ∧ r'.2.storage.cycles < 2 ^ 64 := by
  unfold counted
  split
  next h =>
    rw [Except.ok.injEq]
    exact ⟨fun heq => ⟨heq, heq ▸ h⟩, And.left⟩
  next h => exact iff_of_false nofun fun ⟨heq, hlt⟩ => h (heq ▸ hlt)

theorem counted_error_iff {r : α × Chip} {o : Overflow} :
    counted r = .error o ↔ o = .cycles ∧ 2 ^ 64 ≤ r.2.storage.cycles := by
  unfold counted
  split
  next h => exact iff_of_false nofun fun ⟨_, hle⟩ => Nat.not_lt.2 hle h
  next h =>
    rw [Except.error.injEq, eq_comm]
    exact (and_iff_left (Nat.not_lt.1 h)).symm

/-! ### Cycles -/

theorem le_cycles_cycle (c : Chip) : c.storage.cycles ≤ c.cycle.2.storage.cycles := by
  cases hcycle : c.cycle with
  | mk result c' =>
  cases result with
  | error fault => exact Nat.le_of_eq (cycles_of_error hcycle).symm
  | ok flow =>
    rw [cycles_of_ok hcycle]
    exact Nat.le_succ _

theorem le_cycles_runFrom (c : Chip) (done limit : Nat) :
    c.storage.cycles ≤ (runFrom done limit c).2.storage.cycles :=
  runFrom_induct (P := fun c' => c.storage.cycles ≤ c'.storage.cycles)
    (fun c' h => Nat.le_trans h c'.le_cycles_cycle) done limit (Nat.le_refl _)

theorem cycle?_eq (h : c.storage.cycles < 2 ^ 64) : c.cycle? = counted c.cycle := by
  unfold cycle?
  split
  next hcycle => rw [hcycle, counted]
  next hcycle => rw [hcycle, counted_of_lt (by rwa [cycles_of_error hcycle])]

theorem runFrom?_eq (h : c.storage.cycles < 2 ^ 64) (done limit : Nat) :
    runFrom? done limit c = counted (runFrom done limit c) := by
  induction limit generalizing c done with
  | zero => exact (counted_of_lt h).symm
  | succ limit ih =>
    rw [runFrom?, runFrom, cycle?_eq h]
    cases hcycle : c.cycle with
    | mk result c' =>
    rcases Nat.lt_or_ge c'.storage.cycles (2 ^ 64) with hroom | hfull
    · rw [counted_of_lt hroom]
      cases result with
      | error fault => exact (counted_of_lt hroom).symm
      | ok flow =>
        cases flow with
        | stop => exact (counted_of_lt hroom).symm
        | next | jump target => exact ih hroom (done + 1)
    · rw [counted_of_le hfull]
      -- Whatever the run would go on to, the count stays past the end.
      have hrest := counted_of_le (Nat.le_trans hfull (c'.le_cycles_runFrom (done + 1) limit))
      cases result with
      | error fault => exact (counted_of_le hfull).symm
      | ok flow =>
        cases flow with
        | stop => exact (counted_of_le hfull).symm
        | next | jump target => exact hrest.symm

theorem run?_eq (h : c.storage.cycles < 2 ^ 64) (limit : Nat) : c.run? limit = counted (c.run limit) :=
  runFrom?_eq h 0 limit

/-- What holds after every cycle that is counted holds after every run. -/
theorem runFrom?_induct {P : Chip → Prop} (hcycle : ∀ c r, P c → c.cycle? = .ok r → P r.2)
    {done limit : Nat} {r : RunSummary × Chip} (h : P c) (hrun : runFrom? done limit c = .ok r) :
    P r.2 := by
  induction limit generalizing c done with
  | zero =>
    cases hrun
    exact h
  | succ limit ih =>
    obtain ⟨⟨result, c'⟩, hfirst, hrest⟩ := bind_ok_iff.1 hrun
    have hnext : P c' := hcycle c _ h hfirst
    cases result with
    | error fault =>
      cases hrest
      exact hnext
    | ok flow =>
      cases flow with
      | stop =>
        cases hrest
        exact hnext
      | next | jump target => exact ih hnext hrest

/-! ### Calls -/

theorem boot_of_boot? {result : Except ChipError Chip} (h : c.boot? = .ok result) :
    c.boot = result := by
  unfold boot? at h
  split at h
  next hboot =>
    split at h <;> cases h
    exact hboot
  next hboot =>
    cases h
    exact hboot

/-- A call that overflows no counter does what it does without an end. -/
theorem perform_of_perform? (h : c.storage.cycles < 2 ^ 64) {call : HostCall}
    (hcall : c.perform? call = .ok c') : c.perform call = c' := by
  cases call with
  | boot =>
    obtain ⟨result, hboot, hresult⟩ := bind_ok_iff.1 hcall
    rw [perform, boot_of_boot? hboot]
    exact pure_ok_iff.1 hresult
  | cycle =>
    obtain ⟨r, hcycle, hr⟩ := bind_ok_iff.1 hcall
    rw [cycle?_eq h, counted_ok_iff] at hcycle
    rw [perform, hcycle.1]
    exact pure_ok_iff.1 hr
  | run limit =>
    obtain ⟨r, hrun, hr⟩ := bind_ok_iff.1 hcall
    rw [run?_eq h, counted_ok_iff] at hrun
    rw [perform, hrun.1]
    exact pure_ok_iff.1 hr
  | _ => exact Except.ok.inj hcall

end Microcontroller.Chip
