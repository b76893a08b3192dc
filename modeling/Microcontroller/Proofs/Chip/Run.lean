import Microcontroller.Isa.M1047
import Microcontroller.Proofs.Chip.Flow
/-!
# Runs in parts

A run is a number of cycles, one after the other, and where it begins to count is no part of what it
does. So a run can be cut off at any cycle and taken up again: the two parts do what the whole run
does, and their cycles add up. A part that was not cut off, but came to the end of the program or to a
fault, is the whole run. The cycle that faults is a cycle of its run, but the chip does not count it.
-/

namespace Microcontroller.Chip

/-- The chip after a number of cycles, whatever becomes of them. -/
def afterCycles (c : Chip) : Nat → Chip
  | 0 => c
  | n + 1 => c.cycle.2.afterCycles n

namespace RunSummary

/-- The summary of a run that had `cycles` cycles before this one. -/
def after (s : RunSummary) (cycles : Nat) : RunSummary := { s with cycles := cycles + s.cycles }

/-- The cycles of a run that its chip does not count: the one that faults. -/
def faulting (s : RunSummary) : Nat :=
  match s.reason with
  | .fault _ => 1
  | .program | .limit => 0

theorem after_after (s : RunSummary) (m n : Nat) : (s.after n).after m = s.after (m + n) := by
  rw [after, after, after, Nat.add_assoc]

theorem cycles_after (s : RunSummary) (n : Nat) : (s.after n).cycles = n + s.cycles := rfl

theorem faulting_after (s : RunSummary) (n : Nat) : (s.after n).faulting = s.faulting := rfl

theorem faulting_program (n : Nat) : faulting ⟨n, .program⟩ = 0 := rfl

theorem faulting_fault (n : Nat) (cause : Fault) : faulting ⟨n, .fault cause⟩ = 1 := rfl

end RunSummary

variable {c c' : Chip}

/-! ### One cycle of a run -/

/-- A run does the same wherever it begins to count. -/
theorem runFrom_eq (c : Chip) (done limit : Nat) :
    runFrom done limit c = ((c.run limit).1.after done, (c.run limit).2) := by
  induction limit generalizing c done with
  | zero => rfl
  | succ limit ih =>
    have hrest (c' : Chip) : runFrom (done + 1) limit c' =
        ((runFrom 1 limit c').1.after done, (runFrom 1 limit c').2) := by
      rw [ih c' (done + 1), ih c' 1, RunSummary.after_after]
    rw [run, runFrom, runFrom]
    cases c.cycle with
    | mk result c' =>
    cases result with
    | error fault => rfl
    | ok flow =>
      cases flow with
      | stop => rfl
      | next => exact hrest c'
      | jump target => exact hrest c'

theorem run_succ_of_error {fault : Fault} (h : c.cycle = (.error fault, c')) (limit : Nat) :
    c.run (limit + 1) = (⟨1, .fault fault⟩, c') := by
  rw [run, runFrom, h]

theorem run_succ_of_stop (h : c.cycle = (.ok .stop, c')) (limit : Nat) :
    c.run (limit + 1) = (⟨1, .program⟩, c') := by
  rw [run, runFrom, h]

theorem run_succ_of_ok {flow : Flow} (h : c.cycle = (.ok flow, c')) (hflow : flow ≠ .stop)
    (limit : Nat) : c.run (limit + 1) = ((c'.run limit).1.after 1, (c'.run limit).2) := by
  rw [run, runFrom, h]
  cases flow with
  | stop => exact absurd rfl hflow
  | next => exact runFrom_eq c' 1 limit
  | jump target => exact runFrom_eq c' 1 limit

/-- What holds of all runs without a cycle, and of a run if it holds of what its first cycle leaves to
be done, holds of all runs. -/
theorem run_induct {P : Chip → Nat → Prop} (zero : ∀ c, P c 0)
    (error : ∀ c c' fault limit, c.cycle = (.error fault, c') → P c (limit + 1))
    (stop : ∀ c c' limit, c.cycle = (.ok .stop, c') → P c (limit + 1))
    (ok : ∀ c c' flow limit, c.cycle = (.ok flow, c') → flow ≠ .stop → P c' limit → P c (limit + 1))
    (c : Chip) (limit : Nat) : P c limit := by
  induction limit generalizing c with
  | zero => exact zero c
  | succ limit ih =>
    cases hcycle : c.cycle with
    | mk result c' =>
    cases result with
    | error fault => exact error c c' fault limit hcycle
    | ok flow =>
      by_cases hflow : flow = .stop
      · exact stop c c' limit (hflow ▸ hcycle)
      · exact ok c c' flow limit hcycle hflow (ih c')

/-! ### What a run comes to -/

/-- A run is as many cycles as it says. -/
theorem run_eq_afterCycles (c : Chip) (limit : Nat) :
    (c.run limit).2 = c.afterCycles (c.run limit).1.cycles := by
  induction c, limit using run_induct with
  | zero c => rfl
  | error c c' fault limit h =>
    rw [run_succ_of_error h, afterCycles, h]
    rfl
  | stop c c' limit h =>
    rw [run_succ_of_stop h, afterCycles, h]
    rfl
  | ok c c' flow limit h hflow ih =>
    rw [run_succ_of_ok h hflow, RunSummary.after, Nat.add_comm, afterCycles, h]
    exact ih

theorem cycles_run_le (c : Chip) (limit : Nat) : (c.run limit).1.cycles ≤ limit := by
  induction c, limit using run_induct with
  | zero c => exact Nat.le_refl 0
  | error c c' fault limit h =>
    rw [run_succ_of_error h]
    exact Nat.le_add_left 1 limit
  | stop c c' limit h =>
    rw [run_succ_of_stop h]
    exact Nat.le_add_left 1 limit
  | ok c c' flow limit h hflow ih =>
    rw [run_succ_of_ok h hflow, RunSummary.after, Nat.add_comm]
    exact Nat.succ_le_succ ih

/-- Only a run that makes all the cycles it may is cut off. -/
theorem cycles_run_of_limit {limit : Nat} (h : (c.run limit).1.reason = .limit) :
    (c.run limit).1.cycles = limit := by
  induction c, limit using run_induct with
  | zero c => rfl
  | error c c' fault limit hcycle =>
    rw [run_succ_of_error hcycle] at h
    cases h
  | stop c c' limit hcycle =>
    rw [run_succ_of_stop hcycle] at h
    cases h
  | ok c c' flow limit hcycle hflow ih =>
    rw [run_succ_of_ok hcycle hflow] at h ⊢
    rw [RunSummary.after, ih h, Nat.add_comm]

/-- A run that is cut off goes on as a run of the chip it leaves. -/
theorem run_add_of_limit {m : Nat} (h : (c.run m).1.reason = .limit) (n : Nat) :
    c.run (m + n) = (((c.run m).2.run n).1.after m, ((c.run m).2.run n).2) := by
  induction c, m using run_induct with
  | zero c => rw [Nat.zero_add]; exact runFrom_eq c 0 n
  | error c c' fault m hcycle =>
    rw [run_succ_of_error hcycle] at h
    cases h
  | stop c c' m hcycle =>
    rw [run_succ_of_stop hcycle] at h
    cases h
  | ok c c' flow m hcycle hflow ih =>
    rw [run_succ_of_ok hcycle hflow] at h ⊢
    rw [Nat.add_right_comm, run_succ_of_ok hcycle hflow, ih h, RunSummary.after_after, Nat.add_comm]

/-- A run that has stopped is not changed by a higher limit. -/
theorem run_add_of_stopped {m : Nat} (h : (c.run m).1.reason ≠ .limit) (n : Nat) :
    c.run (m + n) = c.run m := by
  induction c, m using run_induct with
  | zero c => exact absurd rfl h
  | error c c' fault m hcycle =>
    rw [Nat.add_right_comm, run_succ_of_error hcycle, run_succ_of_error hcycle]
  | stop c c' m hcycle =>
    rw [Nat.add_right_comm, run_succ_of_stop hcycle, run_succ_of_stop hcycle]
  | ok c c' flow m hcycle hflow ih =>
    rw [run_succ_of_ok hcycle hflow] at h
    rw [Nat.add_right_comm, run_succ_of_ok hcycle hflow, run_succ_of_ok hcycle hflow, ih h]

/-- Runs that have stopped are one run, whatever their limits. -/
theorem run_of_stopped {m n : Nat} (hm : (c.run m).1.reason ≠ .limit)
    (hn : (c.run n).1.reason ≠ .limit) : c.run m = c.run n := by
  rcases Nat.le_total m n with hle | hle
  · obtain ⟨k, rfl⟩ := Nat.exists_eq_add_of_le hle
    exact (run_add_of_stopped hm k).symm
  · obtain ⟨k, rfl⟩ := Nat.exists_eq_add_of_le hle
    exact run_add_of_stopped hn k

/-! ### The cycle counter -/

theorem cycles_of_ok {flow : Flow} (h : c.cycle = (.ok flow, c')) :
    c'.storage.cycles = c.storage.cycles + 1 := by
  rw [cycle] at h
  cases hfetch : c.fetch c.storage.ip with
  | error stop =>
    rw [hfetch] at h
    cases h
  | ok d =>
    have hkept := Storage.cycles_execute c.instructions.flags d c.storage
    rw [hfetch] at h
    cases hexecute : c.storage.execute c.instructions.flags d with
    | mk result s =>
    simp only [hexecute] at h hkept
    cases result with
    | error fault => cases h
    | ok flow =>
      cases h
      rw [← hkept]
      rfl

theorem cycles_of_error {fault : Fault} (h : c.cycle = (.error fault, c')) :
    c'.storage.cycles = c.storage.cycles := by
  rw [cycle] at h
  cases hfetch : c.fetch c.storage.ip with
  | error stop =>
    rw [hfetch] at h
    cases h
    rfl
  | ok d =>
    have hkept := Storage.cycles_execute c.instructions.flags d c.storage
    rw [hfetch] at h
    cases hexecute : c.storage.execute c.instructions.flags d with
    | mk result s =>
    simp only [hexecute] at h hkept
    cases result with
    | error fault =>
      cases h
      exact hkept
    | ok flow => cases h

/-- A run counts its cycles but for the one that faults. -/
theorem cycles_run (c : Chip) (limit : Nat) :
    (c.run limit).2.storage.cycles + (c.run limit).1.faulting =
      c.storage.cycles + (c.run limit).1.cycles := by
  induction c, limit using run_induct with
  | zero c => rfl
  | error c c' fault limit hcycle =>
    rw [run_succ_of_error hcycle]
    dsimp only
    rw [RunSummary.faulting_fault, cycles_of_error hcycle]
  | stop c c' limit hcycle =>
    rw [run_succ_of_stop hcycle]
    dsimp only
    rw [RunSummary.faulting_program, Nat.add_zero, cycles_of_ok hcycle]
  | ok c c' flow limit hcycle hflow ih =>
    rw [run_succ_of_ok hcycle hflow]
    dsimp only
    rw [RunSummary.faulting_after, RunSummary.cycles_after, ih, cycles_of_ok hcycle, Nat.add_assoc]

/-- Splitting a run. If its first part is cut off by its limit it has made all the cycles it might,
and what comes after it is a run of the chip that it leaves; else it is the whole run. No run makes
more cycles than it may, and each is counted but the one that faults. -/
theorem run_composes (c : Chip) (m n : Nat) :
    ((c.run m).1.reason = .limit →
      (c.run m).1.cycles = m ∧
      (c.run (m + n)).1.reason = ((c.run m).2.run n).1.reason ∧
      (c.run (m + n)).1.cycles = (c.run m).1.cycles + ((c.run m).2.run n).1.cycles ∧
      (c.run (m + n)).2 = ((c.run m).2.run n).2) ∧
    ((c.run m).1.reason ≠ .limit → c.run (m + n) = c.run m) ∧
    (c.run m).2.storage.cycles + (c.run m).1.faulting = c.storage.cycles + (c.run m).1.cycles ∧
    (c.run m).1.cycles ≤ m := by
  refine ⟨fun h => ?_, fun h => run_add_of_stopped h n, cycles_run c m, cycles_run_le c m⟩
  have hcycles := cycles_run_of_limit h
  rw [run_add_of_limit h n, hcycles]
  exact ⟨rfl, rfl, rfl, rfl⟩

/-- Two instructions and a cell that is none: the run reports three cycles in two parts, and the chip
has counted two. -/
theorem run_composes_fault :
    let config : Config := { Config.m1047 with registers := 1, ram := 1, rom := 3, mapped := 0 }
    let c := (blank M1047.instructionSet config .w8 .halt).perform (.loadProgram 0 [0, 0, 0xFF])
    (c.run 1).1.reason = .limit ∧
      (c.run (1 + 4)).1.reason = .fault (.illegalInstruction 2 0xFF) ∧
      (c.run (1 + 4)).1.cycles = 1 + 2 ∧
      c.run (5 + 4) = c.run 5 ∧ (c.run 5).2.storage.cycles = 2 := by
  intro config c
  have hlimit : (c.run 1).1.reason = .limit := by decide +kernel
  have hrest : ((c.run 1).2.run 4).1 = ⟨2, .fault (.illegalInstruction 2 0xFF)⟩ := by decide +kernel
  have hstopped : (c.run 5).1 = ⟨3, .fault (.illegalInstruction 2 0xFF)⟩ := by decide +kernel
  have hcycles : c.storage.cycles = 0 := rfl
  obtain ⟨hsplit, -⟩ := run_composes c 1 4
  obtain ⟨hone, hreason, hsum, -⟩ := hsplit hlimit
  obtain ⟨-, hwhole, hcount, -⟩ := run_composes c 5 4
  refine ⟨hlimit, ?_, ?_, hwhole (by rw [hstopped]; nofun), ?_⟩
  · rw [hreason, hrest]
  · rw [hsum, hone, hrest]
  · rw [hstopped, hcycles, RunSummary.faulting_fault] at hcount
    exact Nat.succ.inj hcount

end Microcontroller.Chip
