import Microcontroller.Isa.M1047
import Microcontroller.Proofs.Session.Step
/-!
# Drivers do not get in each other's way

A driver executes a cycle only while the chip is booted and the number of boots is its run. Boots are
never counted down and drivers have runs of their own, so of all drivers there are at any moment only
one can still go on. A driver that the host has halted stays at its end, and the chip is then either
not booted or belongs to a newer boot; so halting it again, by an old handle, does nothing.

All of this is about every order in which the steps of hosts and drivers can happen.
-/

namespace Microcontroller.Session

/-- Driver `i` executes a cycle when it uses the chip now. -/
def Executes (s : Session) (i : Nat) : Prop := (s.step (.useChip i)).chip ≠ s.chip

/-- Driver `i` executes a cycle now or later. -/
def CanExecute (s : Session) (i : Nat) : Prop := ∃ steps, (s.after steps).Executes i

/-- A halt of driver `i`, from `s` to `s'`: it is told to stop, seen to have ended, and released.
Anything may happen in between. -/
def Halts (s : Session) (i : Nat) (s' : Session) : Prop :=
  ∃ waiting leaving, ((s.step (.tellToStop i)).after waiting).hasEnded i = true ∧
    ((((s.step (.tellToStop i)).after waiting).step (.join i)).after leaving).step (.release i) = s'

variable {s s' t : Session} {i j : Nat} {d : Driver}

/-! ### Executing -/

theorem executes_iff : s.Executes i ↔ ∃ d, s.drivers[i]? = some d ∧ d.Drives s.chip := by
  rw [Executes]
  cases hd : s.drivers[i]? with
  | none =>
    simp only [step, hd, ne_eq, not_true, reduceCtorEq, false_and, exists_false]
  | some d =>
    simp only [step_useChip hd, Option.some.injEq, exists_eq_left']
    rcases d.useChip_cases s.chip with ⟨hdrives, h⟩ | ⟨hdrives, h⟩ <;> rw [h]
    · exact iff_of_true (Chip.cycle_ne hdrives.booted) hdrives
    · exact iff_of_false (not_not.2 rfl) hdrives

theorem chip_of_executes (h : s.Executes i) : (s.step (.useChip i)).chip = s.chip.cycle.2 := by
  obtain ⟨d, hd, hdrives⟩ := executes_iff.1 h
  rw [step_useChip hd]
  rcases d.useChip_cases s.chip with ⟨-, h⟩ | ⟨hnot, -⟩
  · exact h
  · exact absurd hdrives hnot

/-! ### Boots and runs over time -/

theorem boots_le_after (s : Session) (steps : List Step) :
    s.chip.boots ≤ (s.after steps).chip.boots :=
  after_induct (P := fun t => s.chip.boots ≤ t.chip.boots)
    (fun t next h => Nat.le_trans h (boots_le_step t next)) steps (Nat.le_refl _)

theorem driver_after (hd : s.drivers[i]? = some d) (steps : List Step) :
    ∃ d', (s.after steps).drivers[i]? = some d' ∧ d'.run = d.run ∧
      (d.stop = true → d'.stop = true) := by
  refine after_induct (P := fun t => ∃ d', t.drivers[i]? = some d' ∧ d'.run = d.run ∧
    (d.stop = true → d'.stop = true)) (fun t next h => ?_) steps ⟨d, hd, rfl, id⟩
  obtain ⟨d', hd', hrun, hstop⟩ := h
  obtain ⟨d'', hd'', hbecomes⟩ := driver_step hd' next
  obtain ⟨hrun', hstop'⟩ := hbecomes.keeps
  exact ⟨d'', hd'', hrun'.trans hrun, fun h => hstop' (hstop h)⟩

/-- If the number of boots is another one after some steps, one of them was a boot. -/
theorem exists_boot {steps : List Step} (h : (s.after steps).chip.boots ≠ s.chip.boots) :
    ∃ earlier next later, steps = earlier ++ next :: later ∧
      (s.after earlier).chip.Boots ((s.after earlier).step next).chip := by
  induction steps generalizing s with
  | nil => exact absurd rfl h
  | cons first rest ih =>
    rcases chip_step s first with hfirst | hfirst
    · rw [after_cons, ← hfirst.boots] at h
      obtain ⟨earlier, next, later, hrest, hboots⟩ := ih h
      exact ⟨first :: earlier, next, later, congrArg (first :: ·) hrest, hboots⟩
    · exact ⟨[], first, rest, rfl, hfirst⟩

/-- A driver that can still execute a cycle is the one of the latest boot. -/
theorem Numbered.boots_eq_run (hs : s.Numbered) (hd : s.drivers[i]? = some d)
    (h : s.CanExecute i) : s.chip.boots = d.run := by
  obtain ⟨steps, h⟩ := h
  obtain ⟨d', hd', hrun, -⟩ := driver_after hd steps
  obtain ⟨_, hd'', hdrives⟩ := executes_iff.1 h
  cases hd'.symm.trans hd''
  have hnow := hs.run_le i d hd
  have hlater := boots_le_after s steps
  have hend := hdrives.run
  omega

theorem Numbered.canExecute_unique (hs : s.Numbered) (hi : i < s.drivers.size)
    (hj : j < s.drivers.size) (h : s.CanExecute i) (h' : s.CanExecute j) : i = j := by
  have hd := Array.getElem?_eq_getElem hi
  have hd' := Array.getElem?_eq_getElem hj
  exact hs.unique i j _ _ hd hd' ((hs.boots_eq_run hd h).symm.trans (hs.boots_eq_run hd' h'))

/-! ### Halting -/

/-- Driver `i` has been halted, and the chip is not running on its behalf. -/
structure Released (s : Session) (i : Nat) (d : Driver) : Prop where
  driver : s.drivers[i]? = some d
  done : d.Done
  run_le : d.run ≤ s.chip.boots
  halted : s.chip.boots = d.run → s.chip.lifecycle ≠ .booted

theorem Released.step (h : s.Released i d) (next : Step) : (s.step next).Released i d := by
  obtain ⟨d', hd', hbecomes⟩ := driver_step h.driver next
  cases h.done.becomes hbecomes
  refine ⟨hd', h.done, Nat.le_trans h.run_le (boots_le_step s next), fun hrun => ?_⟩
  rcases chip_step s next with hnext | hnext
  · rw [hnext.boots] at hrun
    exact fun hbooted => h.halted hrun (hnext.lifecycle hbooted)
  · have hle := h.run_le
    rw [hnext.boots] at hrun
    omega

theorem Released.after (h : s.Released i d) (steps : List Step) : (s.after steps).Released i d :=
  after_induct (P := fun t => t.Released i d) (fun _ next h => h.step next) steps h

theorem Released.not_canExecute (h : s.Released i d) : ¬ s.CanExecute i := by
  intro ⟨steps, hexecutes⟩
  obtain ⟨d', hd', hdrives⟩ := executes_iff.1 hexecutes
  cases (h.after steps).driver.symm.trans hd'
  exact (h.after steps).halted hdrives.run hdrives.booted

theorem onDriver_eq_self {f : Driver → Driver} (hd : s.drivers[i]? = some d) (hf : f d = d) :
    s.onDriver i f = s := by
  have hdrivers : s.drivers.modify i f = s.drivers := by
    refine Array.ext_getElem? fun k => ?_
    rw [Array.getElem?_modify]
    split
    next hk => rw [← hk, hd, Option.map_some, hf]
    next => rfl
  rw [onDriver, hdrivers]

theorem step_release_of_ended (hd : s.drivers[i]? = some d) (hended : d.hasEnded = true) :
    s.step (.release i) = { s with chip := d.release s.chip } := by
  simp only [Session.step, hd, hended, if_true]

/-- Releasing a driver whose run is the latest halts the chip, releasing any other does nothing. -/
theorem release_cases (d : Driver) (c : Chip) :
    c.boots = d.run ∧ d.release c = c.halt ∨ c.boots ≠ d.run ∧ d.release c = c := by
  rw [Driver.release]
  split
  next hrun => exact .inl ⟨hrun, rfl⟩
  next hrun => exact .inr ⟨hrun, rfl⟩

/-- Halting a driver once more does nothing. -/
theorem Released.unchanged (h : s.Released i d) :
    s.step (.tellToStop i) = s ∧ s.step (.join i) = s ∧ s.step (.release i) = s := by
  refine ⟨onDriver_eq_self h.driver h.done.tellToStop, onDriver_eq_self h.driver h.done.joined, ?_⟩
  rw [step_release_of_ended h.driver h.done.ended, Driver.release]
  split
  next hrun => rw [Chip.halt_of_not_booted (h.halted hrun)]
  next => rfl

theorem hasEnded_iff (hd : s.drivers[i]? = some d) : s.hasEnded i = true ↔ d.hasEnded = true := by
  rw [hasEnded, hd]
  rfl

theorem getElem?_onDriver {f : Driver → Driver} (hd : s.drivers[i]? = some d) :
    (s.onDriver i f).drivers[i]? = some (f d) := by
  rw [onDriver, Array.getElem?_modify, if_pos rfl, hd]
  rfl

theorem done_after (hd : s.drivers[i]? = some d) (hdone : d.Done) (steps : List Step) :
    (s.after steps).drivers[i]? = some d := by
  refine after_induct (P := fun t => t.drivers[i]? = some d) (fun t next hd => ?_) steps hd
  obtain ⟨d', hd', hbecomes⟩ := driver_step hd next
  exact hdone.becomes hbecomes ▸ hd'

theorem getElem?_useChip (hd : s.drivers[i]? = some d) :
    (s.step (.useChip i)).drivers[i]? = some (d.useChip s.chip).1 := by
  rw [step_useChip hd, Array.getElem?_modify, if_pos rfl, hd]
  rfl

theorem Numbered.step_release (hs : s.Numbered) (hd : s.drivers[i]? = some d) (hdone : d.Done) :
    (s.step (.release i)).Released i d := by
  have hle := hs.run_le i d hd
  rw [step_release_of_ended hd hdone.ended]
  rcases release_cases d s.chip with ⟨-, hrelease⟩ | ⟨hne, hrelease⟩ <;> rw [hrelease]
  · exact ⟨hd, hdone, s.chip.continues_halt.boots.symm ▸ hle, fun _ => s.chip.halt_lifecycle⟩
  · exact ⟨hd, hdone, hle, fun hrun => absurd hrun hne⟩

/-- A halt brings a driver to its end, and leaves no chip running on its behalf. -/
theorem Numbered.released (hs : s.Numbered) (hd : s.drivers[i]? = some d) (h : s.Halts i s') :
    ∃ d', s'.Released i d' := by
  obtain ⟨waiting, leaving, hended, rfl⟩ := h
  -- It remembers that it has been told to stop until the host has seen it end; from then on nothing
  -- about it changes.
  obtain ⟨d', hd', -, hstop⟩ := driver_after (getElem?_onDriver hd) waiting
  have hdone := Driver.join_done (hstop rfl) ((hasEnded_iff hd').1 hended)
  have hlast := done_after (getElem?_onDriver hd') hdone leaving
  have hnumbered := (((hs.step (.tellToStop i)).after waiting).step (.join i)).after leaving
  exact ⟨d'.join, hnumbered.step_release hlast hdone⟩

/-- A halt that waits for the next round of the driver and for nothing else. -/
theorem halts_halt (hd : s.drivers[i]? = some d) : s.Halts i (s.halt i) := by
  refine ⟨[.poll i, .useChip i], [], ?_, rfl⟩
  have hpolled := getElem?_onDriver (f := .poll) (getElem?_onDriver (f := .tellToStop) hd)
  have hround := getElem?_useChip hpolled
  exact (hasEnded_iff hround).2 (Driver.hasEnded_of_stop rfl _)

/-! ### Drivers of a session -/

theorem slot_start (h : s.start = .ok (i, t)) :
    t.drivers[i]? = some (Driver.start t.chip.boots) ∧ s.chip.Boots t.chip := by
  obtain ⟨chip, hboot, rfl, rfl⟩ := start_ok_iff.1 h
  exact ⟨Array.getElem?_push_size, Chip.boots_of_boot hboot⟩

/-- A driver that is started after any history of the session, and then any further steps. It executes
a cycle only while the chip is booted and the latest boot is its own; no other driver that there is
can still do so if it can. Once it has been halted it executes no cycle, and halting it again does
nothing. Its release leaves the chip booted only after a newer boot, and then does nothing. -/
theorem driver_safety (c : Chip) (before : List Step)
    (hstart : ((ofChip c).after before).start = .ok (i, t)) (steps : List Step) :
    ((t.after steps).Executes i → (t.after steps).chip.lifecycle = .booted ∧
      (t.after steps).chip.boots = t.chip.boots ∧
      ((t.after steps).step (.useChip i)).chip = (t.after steps).chip.cycle.2) ∧
    (∀ j < (t.after steps).drivers.size, (t.after steps).CanExecute i →
      (t.after steps).CanExecute j → i = j) ∧
    ((t.after steps).hasEnded i = true →
      ((t.after steps).step (.release i)).chip.lifecycle = .booted →
        (t.after steps).step (.release i) = t.after steps ∧
        ∃ earlier next later, steps = earlier ++ next :: later ∧
          (t.after earlier).chip.Boots ((t.after earlier).step next).chip) ∧
    ∀ s', (t.after steps).Halts i s' → ¬ s'.CanExecute i ∧ ∀ more,
      (s'.after more).step (.tellToStop i) = s'.after more ∧
      (s'.after more).step (.join i) = s'.after more ∧
      (s'.after more).step (.release i) = s'.after more := by
  have hnumbered : (t.after steps).Numbered := by
    rw [← step_start hstart]
    exact (((ofChip_numbered c).after before).step .start).after steps
  obtain ⟨hdriver, -⟩ := slot_start hstart
  obtain ⟨d, hd, hrun, -⟩ := driver_after hdriver steps
  have hrun : d.run = t.chip.boots := hrun
  refine ⟨fun h => ?_, fun j hj hi' hj' => ?_, fun hended hbooted => ?_, fun s' h => ?_⟩
  · obtain ⟨_, hd', hdrives⟩ := executes_iff.1 h
    cases hd.symm.trans hd'
    exact ⟨hdrives.booted, hdrives.run.trans hrun, chip_of_executes h⟩
  · have hi : i < (t.after steps).drivers.size := (Array.getElem?_eq_some_iff.1 hd).1
    exact hnumbered.canExecute_unique hi hj hi' hj'
  · rw [step_release_of_ended hd ((hasEnded_iff hd).1 hended)] at hbooted ⊢
    rcases release_cases d (t.after steps).chip with ⟨-, hrelease⟩ | ⟨hne, hrelease⟩
    · rw [hrelease] at hbooted
      exact absurd hbooted (Chip.halt_lifecycle _)
    · rw [hrelease]
      exact ⟨rfl, exists_boot (hrun ▸ hne)⟩
  · obtain ⟨d', hreleased⟩ := hnumbered.released hd h
    exact ⟨hreleased.not_canExecute, fun more => (hreleased.after more).unchanged⟩

/-- A handle that has gone stale: the host halts the chip and boots it for a second driver. The second
driver goes on while the first ends, and releasing the first does not halt the chip. -/
theorem driver_safety_stale :
    let config : Config := { Config.m1047 with registers := 1, ram := 1, rom := 9, mapped := 0 }
    let c := Chip.blank M1047.instructionSet config .w8 .halt
    let t := (ofChip c).step .start
    let s := t.after [.host .halt, .start, .poll 0, .useChip 0, .poll 1]
    ((ofChip c).after []).start = .ok (0, t) ∧ s.hasEnded 0 = true ∧ s.Executes 1 ∧
      (s.step (.release 0)).chip.lifecycle = .booted ∧ s.step (.release 0) = s ∧
      ¬ (s.halt 0).CanExecute 0 := by
  intro config c t s
  have hstart : ((ofChip c).after []).start = .ok (0, t) := rfl
  have hfirst : s.drivers[0]? = some ⟨1, false, .ended none, none⟩ := by decide +kernel
  have hsecond : s.drivers[1]? = some ⟨2, false, .due, none⟩ := by decide +kernel
  have hlife : s.chip.lifecycle = .booted := by decide +kernel
  have hboots : s.chip.boots = 2 := by decide +kernel
  have hended : s.hasEnded 0 = true := (hasEnded_iff hfirst).2 rfl
  have hexecutes : s.Executes 1 := executes_iff.2 ⟨_, hsecond, rfl, rfl, hlife, hboots⟩
  have hbooted : (s.step (.release 0)).chip.lifecycle = .booted := by decide +kernel
  obtain ⟨-, -, hrelease, hhalt⟩ := driver_safety c [] hstart
    [.host .halt, .start, .poll 0, .useChip 0, .poll 1]
  exact ⟨hstart, hended, hexecutes, hbooted, (hrelease hended hbooted).1,
    (hhalt (s.halt 0) (halts_halt hfirst)).1⟩

end Microcontroller.Session
