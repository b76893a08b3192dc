import Microcontroller.Isa.M1047
import Microcontroller.Proofs.Chip.Run
import Microcontroller.Proofs.Session.Step
/-!
# A driver with the chip to itself

Where nobody else is at the chip, the rounds of a driver are the cycles of a run, and the driver ends
where the run does. It does so for a reason of its own: a run stops at what a cycle answers, a driver
where it finds the chip no longer booted. The two agree because a cycle halts the chip exactly when it
faults or ends the program. Waiting for the driver then gives what stopped the run.
-/

namespace Microcontroller

namespace Session

/-- Rounds of a driver with nothing in between. -/
def ticks (s : Session) (driver : Nat) : Nat → Session
  | 0 => s
  | rounds + 1 => (s.tick driver).ticks driver rounds

/-- Waiting for a driver with nobody else at the chip. It takes its rounds until it has ended, is then
joined, and its fault is handed over, if it has one. -/
inductive Waits (driver : Nat) : Session → Option Fault → Session → Prop
  | ended {s : Session} (h : s.hasEnded driver = true) :
      Waits driver s ((s.step (.join driver)).fault? driver) (s.step (.join driver))
  | round {s s' : Session} {fault : Option Fault} (h : s.hasEnded driver = false)
      (rest : Waits driver (s.tick driver) fault s') : Waits driver s fault s'

variable {s s' : Session} {i : Nat} {fault : Option Fault}

theorem exists_waits {rounds : Nat} (h : (s.ticks i rounds).hasEnded i = true) :
    ∃ fault s', Waits i s fault s' := by
  induction rounds generalizing s with
  | zero => exact ⟨_, _, .ended h⟩
  | succ rounds ih =>
    cases hended : s.hasEnded i with
    | true => exact ⟨_, _, .ended hended⟩
    | false =>
      obtain ⟨fault, s', hrest⟩ := ih h
      exact ⟨fault, s', .round hended hrest⟩

theorem Waits.exists_ticks (h : Waits i s fault s') : ∃ rounds,
    (s.ticks i rounds).hasEnded i = true ∧ (s.ticks i rounds).step (.join i) = s' ∧
      s'.fault? i = fault := by
  induction h with
  | ended h => exact ⟨0, h, rfl, rfl⟩
  | round _ _ ih =>
    obtain ⟨rounds, h⟩ := ih
    exact ⟨rounds + 1, h⟩

/-! ### A single driver -/

/-- A session with one driver. -/
def lone (c : Chip) (d : Driver) : Session := ⟨c, #[d]⟩

/-- A driver by itself, after as many rounds as a run had cycles that stopped for this reason. -/
def driverAfter (run : Nat) : Chip.StopReason → Driver
  | .limit => Driver.start run
  | .program => { Driver.start run with phase := .ended none }
  | .fault cause => { Driver.start run with phase := .ended (some cause) }

variable {c : Chip} {d : Driver}

theorem tick_lone (c : Chip) (d : Driver) :
    (lone c d).tick 0 = lone (d.poll.useChip c).2 (d.poll.useChip c).1 := rfl

theorem ticks_of_ended (h : d.hasEnded = true) (rounds : Nat) :
    (lone c d).ticks 0 rounds = lone c d := by
  induction rounds with
  | zero => rfl
  | succ rounds ih =>
    rw [ticks, tick_lone, Driver.poll_of_ended h, Driver.useChip_of_ended h]
    exact ih

/-- A driver that waits for its tick, on a booted chip that is its own, executes a cycle in its next
round. -/
theorem poll_drives (h : c.lifecycle = .booted) : (Driver.start c.boots).poll.Drives c :=
  ⟨rfl, rfl, h, rfl⟩

/-- Rounds of a lone driver are cycles of a run. -/
theorem ticks_lone (h : c.lifecycle = .booted) (done rounds : Nat) :
    (lone c (Driver.start c.boots)).ticks 0 rounds =
      lone (Chip.runFrom done rounds c).2
        (driverAfter c.boots (Chip.runFrom done rounds c).1.reason) := by
  induction rounds generalizing c done with
  | zero => rfl
  | succ rounds ih =>
    rw [ticks, tick_lone, Chip.runFrom]
    cases hcycle : c.cycle with
    | mk result c' =>
    have hboots : c'.boots = c.boots := by
      rw [← c.continues_cycle.boots, hcycle]
    cases result with
    | error fault =>
      rw [(poll_drives h).useChip_error hcycle]
      exact ticks_of_ended rfl rounds
    | ok flow =>
      rw [(poll_drives h).useChip_ok hcycle]
      by_cases hflow : flow = .stop
      · subst hflow
        rw [Chip.isBooted, Chip.lifecycle_of_stop hcycle]
        exact ticks_of_ended rfl rounds
      · have hbooted := (Chip.lifecycle_of_cycle hcycle hflow).trans h
        have hrest := ih hbooted (done + 1)
        rw [hboots] at hrest
        rw [Chip.isBooted, hbooted]
        cases flow with
        | stop => exact absurd rfl hflow
        | next | jump => exact hrest

/-! ### Waiting -/

theorem hasEnded_driverAfter_iff (run : Nat) (reason : Chip.StopReason) :
    (driverAfter run reason).hasEnded = true ↔ reason ≠ .limit := by
  cases reason with
  | limit => exact iff_of_false nofun (not_not.2 rfl)
  | program | fault => exact iff_of_true rfl nofun

theorem fault_join_driverAfter (run : Nat) (reason : Chip.StopReason) :
    (driverAfter run reason).join.fault =
      match reason with
      | .fault cause => some cause
      | .limit | .program => none := by
  cases reason <;> rfl

theorem waits_lone_iff (h : d.hasEnded = true) :
    Waits 0 (lone c d) fault s' ↔ fault = d.join.fault ∧ s' = lone c d.join := by
  constructor
  · intro hwaits
    cases hwaits with
    | ended => exact ⟨rfl, rfl⟩
    | round hnot =>
      have hnot : d.hasEnded = false := hnot
      rw [h] at hnot
      cases hnot
  · rintro ⟨rfl, rfl⟩
    exact .ended h

/-- A driver started on a chip that is not booted, with nobody else at the chip. After every number of
rounds the chip is what a run of as many cycles makes of it, and the driver has ended where the run
has stopped. Waiting for it comes to an end if the run does, with the chip as the run leaves it, and
gives the fault that stopped the run, now and ever after. -/
theorem driver_computes_run (c : Chip) (h : c.lifecycle ≠ .booted) :
    ∃ booted s, c.boot = .ok booted ∧ (ofChip c).start = .ok (0, s) ∧
      (∀ rounds, (s.ticks 0 rounds).chip = (booted.run rounds).2 ∧
        ((s.ticks 0 rounds).hasEnded 0 = true ↔ (booted.run rounds).1.reason ≠ .limit)) ∧
      ∀ limit, (booted.run limit).1.reason ≠ .limit →
        (∃ fault s', Waits 0 s fault s') ∧
        ∀ fault s', Waits 0 s fault s' → s'.chip = (booted.run limit).2 ∧
          (∀ cause, fault = some cause ↔ (booted.run limit).1.reason = .fault cause) ∧
          (fault = none ↔ (booted.run limit).1.reason = .program) ∧
          ∀ fault' s'', Waits 0 s' fault' s'' ↔ fault' = fault ∧ s'' = s' := by
  obtain ⟨booted, hboot⟩ := Chip.exists_boot_iff.2 h
  have hbooted := (Chip.boots_of_boot hboot).after
  have hticks (rounds : Nat) := ticks_lone hbooted 0 rounds
  have hended (rounds : Nat) :
      ((lone booted (Driver.start booted.boots)).ticks 0 rounds).hasEnded 0 = true ↔
        (booted.run rounds).1.reason ≠ .limit := by
    rw [hticks]
    exact hasEnded_driverAfter_iff _ _
  refine ⟨booted, lone booted (Driver.start booted.boots), hboot,
    start_ok_iff.2 ⟨booted, hboot, rfl, rfl⟩, fun rounds => ⟨?_, hended rounds⟩, fun limit hstop => ?_⟩
  · rw [hticks]
    rfl
  refine ⟨exists_waits ((hended limit).2 hstop), fun fault s' hwaits => ?_⟩
  obtain ⟨rounds, hrounds, hs', hfault⟩ := hwaits.exists_ticks
  -- The driver may have been joined after fewer or more rounds than `limit`: both runs have stopped.
  have hsame := Chip.run_of_stopped ((hended rounds).1 hrounds) hstop
  have hjoined : s' = lone (booted.run limit).2
      (driverAfter booted.boots (booted.run limit).1.reason).join := by
    rw [← hs', hticks, ← hsame]
    rfl
  subst hjoined
  have hfault : fault = (driverAfter booted.boots (booted.run limit).1.reason).join.fault :=
    hfault.symm
  have hagain := (hasEnded_driverAfter_iff booted.boots _).2 hstop
  rw [← Driver.hasEnded_join] at hagain
  refine ⟨rfl, fun cause => ?_, ?_, fun fault' s'' => ?_⟩
  · rw [hfault, fault_join_driverAfter]
    cases (booted.run limit).1.reason <;> simp
  · rw [hfault, fault_join_driverAfter]
    cases hreason : (booted.run limit).1.reason with
    | limit => exact absurd hreason hstop
    | program | fault => simp
  · rw [waits_lone_iff hagain, Driver.join_join, hfault]

/-- A program of one instruction with a cell behind it that is none: the driver stops there, and waiting
for it gives the fault. -/
theorem driver_computes_run_fault :
    let config : Config := { Config.m1047 with registers := 1, ram := 1, rom := 2, mapped := 0 }
    let c := (Chip.blank M1047.instructionSet config .w8 .halt).perform (.loadProgram 0 [0, 0xFF])
    c.lifecycle ≠ .booted ∧ ∃ booted s s', c.boot = .ok booted ∧ (ofChip c).start = .ok (0, s) ∧
      Waits 0 s (some (.illegalInstruction 1 0xFF)) s' ∧ s'.chip = (booted.run 2).2 := by
  intro config c
  have hlife : c.lifecycle ≠ .booted := by decide
  obtain ⟨booted, s, hboot, hstart, -, hwaits⟩ := driver_computes_run c hlife
  have hreason : (booted.run 2).1.reason = .fault (.illegalInstruction 1 0xFF) := by
    cases hboot
    decide +kernel
  obtain ⟨⟨fault, s', hwait⟩, hresult⟩ := hwaits 2 (hreason.trans_ne nofun)
  obtain ⟨hchip, hfault, -⟩ := hresult fault s' hwait
  exact ⟨hlife, booted, s, s', hboot, hstart, (hfault _).2 hreason ▸ hwait, hchip⟩

end Session

end Microcontroller
