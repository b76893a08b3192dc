import Microcontroller.Proofs.Chip.Numbers
/-!
# Going on from an image

A chip that was cut off in the middle of its program and is restored from an image goes on as if
nothing had happened. Nothing a cycle does depends on what the host knows of a chip: its stage of life,
its last fault and the number of its boots. Restoring changes the first and the last of these, booting
brings the chip back to life without clearing its status register, because it has been halted and not
reset, and then only the number of boots differs. It stays the only difference for as long as the two
chips run, and no snapshot holds it.
-/

namespace Microcontroller.Chip

variable {set : InstructionSet} {config : Config} {c c' : Chip}

/-! ### What a cycle does not depend on -/

/-- How a cycle ends, with storage as it has been left by then, is settled without a look at the stage
of life, the last fault or the number of boots. -/
theorem cycle_outcome (c : Chip) :
    (∃ fault s size, ∀ lifecycle last boots,
      { c with lifecycle, fault := last, boots }.cycle =
        (.error fault, { c with storage := s, lifecycle, fault := last, boots }.stopAt fault size)) ∨
    ∃ flow s size, ∀ lifecycle last boots,
      { c with lifecycle, fault := last, boots }.cycle =
        (.ok flow, { c with storage := s, lifecycle, fault := last, boots }.advance flow size) := by
  have hfetch (lifecycle : Lifecycle) (last : Option Fault) (boots address : Nat) :
      { c with lifecycle, fault := last, boots }.fetch address = c.fetch address := rfl
  cases hstart : c.fetch c.storage.ip with
  | error stop =>
    refine .inl ⟨stop.1, c.storage, stop.2, fun lifecycle last boots => ?_⟩
    rw [cycle, hfetch, hstart]
  | ok d =>
    cases hend : c.storage.execute c.instructions.flags d with
    | mk result s =>
    cases result with
    | error fault =>
      refine .inl ⟨fault, s, d.size, fun lifecycle last boots => ?_⟩
      simp only [cycle, hfetch, hstart, hend]
    | ok flow =>
      refine .inr ⟨flow, s, d.size, fun lifecycle last boots => ?_⟩
      simp only [cycle, hfetch, hstart, hend]

theorem cycle_bookkeeping (c : Chip) (lifecycle : Lifecycle) (fault : Option Fault) (boots : Nat) :
    { c with lifecycle, fault, boots }.cycle.1 = c.cycle.1 ∧
      { c with lifecycle, fault, boots }.cycle.2.storage = c.cycle.2.storage := by
  rcases cycle_outcome c with ⟨_, _, _, h⟩ | ⟨_, _, _, h⟩
  all_goals
    have hown : c.cycle = _ := h c.lifecycle c.fault c.boots
    rw [h, hown]
    exact ⟨rfl, rfl⟩

/-- The number of boots goes through a cycle untouched. -/
theorem cycle_boots (c : Chip) (boots : Nat) :
    { c with boots }.cycle = (c.cycle.1, { c.cycle.2 with boots }) := by
  rcases cycle_outcome c with ⟨_, _, _, h⟩ | ⟨_, _, _, h⟩
  all_goals
    have hown : c.cycle = _ := h c.lifecycle c.fault c.boots
    have hother : { c with boots }.cycle = _ := h c.lifecycle c.fault boots
    rw [hother, hown]
    rfl

theorem runFrom_boots (c : Chip) (boots done limit : Nat) :
    runFrom done limit { c with boots } =
      ((runFrom done limit c).1, { (runFrom done limit c).2 with boots }) := by
  induction limit generalizing c done with
  | zero => rfl
  | succ limit ih =>
    rw [runFrom, runFrom, cycle_boots]
    cases c.cycle with
    | mk result c' =>
    cases result with
    | error fault => rfl
    | ok flow =>
      cases flow with
      | stop => rfl
      | next => exact ih c' (done + 1)
      | jump target => exact ih c' (done + 1)

/-- No snapshot tells how often a chip was booted before it ran. -/
theorem run?_boots (h : c.storage.cycles < 2 ^ 64) (boots limit : Nat) :
    ({ c with boots }.run? limit).map (Prod.map id snapshot) =
      (c.run? limit).map (Prod.map id snapshot) := by
  have hother : { c with boots }.run? limit = counted (runFrom 0 limit { c with boots }) :=
    run?_eq (c := { c with boots }) h limit
  rw [hother, runFrom_boots, run?_eq h, run]
  obtain ⟨summary, c'⟩ := runFrom 0 limit c
  simp only [counted]
  split <;> rfl

/-! ### A run that is cut off -/

/-- Apart from storage, a cycle does what stopping or advancing does. -/
theorem cycle_own (c : Chip) :
    (∃ fault s size, c.cycle = (.error fault, { c with storage := s }.stopAt fault size)) ∨
    ∃ flow s size, c.cycle = (.ok flow, { c with storage := s }.advance flow size) := by
  rcases cycle_outcome c with ⟨fault, s, size, h⟩ | ⟨flow, s, size, h⟩
  · exact .inl ⟨fault, s, size, h c.lifecycle c.fault c.boots⟩
  · exact .inr ⟨flow, s, size, h c.lifecycle c.fault c.boots⟩

theorem policy_run (c : Chip) (limit : Nat) : (c.run limit).2.policy = c.policy := by
  refine runFrom_induct (P := fun c' => c'.policy = c.policy) (fun c' h => ?_) 0 limit rfl
  rcases cycle_own c' with ⟨_, _, _, hcycle⟩ | ⟨_, _, _, hcycle⟩
  all_goals
    rw [hcycle]
    exact h

/-- Only a fault and the end of the program halt a chip. -/
theorem lifecycle_of_cycle {flow : Flow} (h : c.cycle = (.ok flow, c')) (hflow : flow ≠ .stop) :
    c'.lifecycle = c.lifecycle := by
  rcases cycle_own c with ⟨_, _, _, hcycle⟩ | ⟨_, _, _, hcycle⟩
  all_goals cases hcycle.symm.trans h
  exact if_neg hflow

theorem lifecycle_of_runFrom {done limit : Nat} (h : (runFrom done limit c).1.reason = .limit) :
    (runFrom done limit c).2.lifecycle = c.lifecycle := by
  induction limit generalizing c done with
  | zero => rfl
  | succ limit ih =>
    cases hcycle : c.cycle with
    | mk result c' =>
    rw [runFrom, hcycle] at h ⊢
    cases result with
    | error fault => cases h
    | ok flow =>
      have hkept := lifecycle_of_cycle hcycle
      cases flow with
      | stop => cases h
      | next => exact (ih h).trans (hkept (by rintro ⟨⟩))
      | jump target => exact (ih h).trans (hkept (by rintro ⟨⟩))

/-! ### Going on -/

/-- A running chip comes back from its snapshot and is booted again; that it then has one boot is all
that has changed. -/
theorem Conforms.boot_snapshot (hc : c.Conforms set config) (hbooted : c.lifecycle = .booted) :
    ∃ restored, ofSnapshot set c.snapshot c.policy = .ok restored ∧
      restored.boot = .ok { c with boots := 1 } := by
  refine ⟨_, hc.restore_snapshot c.policy, ?_⟩
  simp only [Chip.boot, hbooted, if_true]

/-- A running chip that is cut off by its limit of cycles, written to an image, read back, restored
and booted, gives the same summary of every further run as the chip itself, and ends with the same
snapshot; or both overflow the counter of cycles. This is because no cycle depends on the stage of life,
the last fault or the number of boots. -/
theorem resumed_run (set : InstructionSet) :
    (∀ c, Attainable set c → c.lifecycle = .booted → ∀ m n summary cut,
      c.run? m = .ok (summary, cut) → summary.reason = .limit →
      ∃ s restored booted, Snapshot.ofBytes cut.snapshot.toBytes = .ok s ∧
        ofSnapshot set s c.policy = .ok restored ∧ restored.boot = .ok booted ∧
        (booted.run? n).map (Prod.map id snapshot) = (cut.run? n).map (Prod.map id snapshot)) ∧
    ∀ (c : Chip) (lifecycle : Lifecycle) (fault : Option Fault) (boots : Nat),
      { c with lifecycle, fault, boots }.cycle.1 = c.cycle.1 ∧
        { c with lifecycle, fault, boots }.cycle.2.storage = c.cycle.2.storage := by
  refine ⟨fun c hc hbooted m n summary cut hrun hlimit => ?_, cycle_bookkeeping⟩
  have hcut : Attainable set cut := .perform (.run m) hc (bind_ok_iff.2 ⟨_, hrun, rfl⟩)
  obtain ⟨hrun, hroom⟩ := counted_ok_iff.1 ((run?_eq hc.bounded.cycles m).symm.trans hrun)
  have hsummary : (c.run m).1 = summary := congrArg Prod.fst hrun
  have hchip : (c.run m).2 = cut := congrArg Prod.snd hrun
  subst hsummary hchip
  have hrunning := (lifecycle_of_runFrom hlimit).trans hbooted
  obtain ⟨restored, hrestored, hboot⟩ := hcut.reachable.conforms.boot_snapshot hrunning
  rw [policy_run] at hrestored
  refine ⟨_, restored, _, hcut.ofBytes_snapshot, hrestored, hboot, ?_⟩
  exact run?_boots hroom 1 n

/-- A program that sets the carry, increments a register and ends, cut off after its first
instruction. The carry is still there when the restored chip has been booted and has come to the
end. -/
theorem resumed_run_carry :
    let set := M1047.instructionSet
    let config : Config := { Config.m1047 with registers := 1, ram := 1, rom := 5, mapped := 0 }
    let c := ((blank set config .w8 .halt).perform (.loadProgram 0 [0x24, 1, 0x10, 0, 0x2E])).perform
      .boot
    Attainable set c ∧ c.lifecycle = .booted ∧ c.run? 1 = .ok (⟨1, .limit⟩, (c.run 1).2) ∧
      ∃ s restored booted final, Snapshot.ofBytes (c.run 1).2.snapshot.toBytes = .ok s ∧
        ofSnapshot set s .halt = .ok restored ∧ restored.boot = .ok booted ∧
        booted.run? 9 = .ok (⟨2, .program⟩, final) ∧ final.snapshot.registers = [1] ∧
        final.snapshot.status = [0x40, 0] := by
  intro set config c
  have hconfig : config.Bounded := by constructor <;> decide
  have hnew : new set config .halt = .ok (blank set config .w8 .halt) := rfl
  have hc : Attainable set c :=
    .perform .boot (.perform (.loadProgram 0 [0x24, 1, 0x10, 0, 0x2E]) (.new hconfig hnew) rfl) rfl
  have hlife : c.lifecycle = .booted := rfl
  have hpolicy : c.policy = .halt := rfl
  have hsummary : (c.run 1).1 = ⟨1, .limit⟩ := by decide +kernel
  have hroom : (c.run 1).2.storage.cycles < 2 ^ 64 := by decide +kernel
  have hroom' : ((c.run 1).2.run 9).2.storage.cycles < 2 ^ 64 := by decide +kernel
  have hend : ((c.run 1).2.run 9).1 = ⟨2, .program⟩ := by decide +kernel
  have hregisters : ((c.run 1).2.run 9).2.snapshot.registers = [1] := by decide +kernel
  have hstatus : ((c.run 1).2.run 9).2.snapshot.status = [0x40, 0] := by decide +kernel
  clear_value c
  have hcut : c.run? 1 = .ok (⟨1, .limit⟩, (c.run 1).2) := by
    rw [run?_eq hc.bounded.cycles, counted_of_lt hroom, ← hsummary]
  have hrest : (c.run 1).2.run? 9 = .ok ((c.run 1).2.run 9) := by
    rw [run?_eq hroom, counted_of_lt hroom']
  obtain ⟨s, restored, booted, hread, hrestored, hbooted, hsame⟩ :=
    (resumed_run set).1 c hc hlife 1 9 _ _ hcut rfl
  rw [hpolicy] at hrestored
  rw [hrest] at hsame
  obtain ⟨⟨summary, final⟩, hfinal, hpair⟩ := map_ok_iff.1 hsame
  have hsummary' : summary = ⟨2, .program⟩ := (congrArg Prod.fst hpair).trans hend
  have hsnapshot : final.snapshot = ((c.run 1).2.run 9).2.snapshot := congrArg Prod.snd hpair
  refine ⟨hc, hlife, hcut, s, restored, booted, final, hread, hrestored, hbooted, ?_, ?_, ?_⟩
  · rw [hfinal, hsummary']
  · rw [hsnapshot, hregisters]
  · rw [hsnapshot, hstatus]

end Microcontroller.Chip
