import Microcontroller.Proofs.Chip.Boots
import Microcontroller.Session
/-!
# What a step of a session can do

Host and drivers take their steps in any order. One step either boots the chip or goes on with it, and
it turns each driver into one that the driver becomes by something it does itself or by something
that is done to it. Only a boot adds a driver, and its run is the new number of boots. From this it
follows that the drivers of a session are numbered: no run is above the number of boots, and no two
drivers have the same run.
-/

namespace Microcontroller

namespace Driver

/-- A driver one step later. -/
inductive Becomes (d : Driver) : Driver → Prop
  | same : Becomes d d
  | poll : Becomes d d.poll
  | useChip (c : Chip) : Becomes d (d.useChip c).1
  | tellToStop : Becomes d d.tellToStop
  | join : Becomes d d.join

/-- The driver executes a cycle of this chip when it uses it. -/
structure Drives (d : Driver) (c : Chip) : Prop where
  due : d.phase = .due
  notStopped : d.stop = false
  booted : c.lifecycle = .booted
  run : c.boots = d.run

/-- At its end, told to stop, and with its fault taken note of: nothing about it changes any more. -/
structure Done (d : Driver) : Prop where
  stop : d.stop = true
  ended : d.hasEnded = true
  joined : d.join = d

variable {d d' : Driver}

/-! ### Using the chip -/

theorem Drives.guard {c : Chip} (h : d.Drives c) :
    (d.stop || !c.isBooted || c.boots != d.run) = false := by
  simp only [Chip.isBooted, h.notStopped, h.booted, h.run, decide_true, Bool.not_true,
    bne_self_eq_false, Bool.or_self]

theorem Drives.useChip_error {c c' : Chip} {fault : Fault} (h : d.Drives c)
    (hcycle : c.cycle = (.error fault, c')) :
    d.useChip c = ({ d with phase := .ended (some fault) }, c') := by
  simp only [useChip, h.due, h.guard, Bool.false_eq_true, if_false, hcycle]

theorem Drives.useChip_ok {c c' : Chip} {flow : Flow} (h : d.Drives c)
    (hcycle : c.cycle = (.ok flow, c')) :
    d.useChip c = ({ d with phase := if c'.isBooted then .waiting else .ended none }, c') := by
  simp only [useChip, h.due, h.guard, Bool.false_eq_true, if_false, hcycle]

theorem chip_of_not_drives {c : Chip} (h : ¬ d.Drives c) : (d.useChip c).2 = c := by
  cases hphase : d.phase with
  | waiting | ended => rw [useChip, hphase]
  | due =>
    cases hguard : d.stop || !c.isBooted || c.boots != d.run with
    | true => simp only [useChip, hphase, hguard, if_true]
    | false =>
      simp only [Chip.isBooted, Bool.or_eq_false_iff, Bool.not_eq_false', decide_eq_true_eq,
        bne_eq_false_iff_eq] at hguard
      obtain ⟨⟨hstop, hbooted⟩, hrun⟩ := hguard
      exact absurd ⟨hphase, hstop, hbooted, hrun⟩ h

/-- A driver executes one cycle or leaves the chip alone. -/
theorem useChip_cases (d : Driver) (c : Chip) :
    d.Drives c ∧ (d.useChip c).2 = c.cycle.2 ∨ ¬ d.Drives c ∧ (d.useChip c).2 = c := by
  by_cases h : d.Drives c
  · refine .inl ⟨h, ?_⟩
    cases hcycle : c.cycle with
    | mk result c' =>
    cases result with
    | error fault => rw [h.useChip_error hcycle]
    | ok flow => rw [h.useChip_ok hcycle]
  · exact .inr ⟨h, chip_of_not_drives h⟩

theorem poll_of_ended (h : d.hasEnded = true) : d.poll = d := by
  rw [hasEnded] at h
  split at h
  next hphase => rw [poll, hphase]
  all_goals cases h

theorem useChip_of_ended (h : d.hasEnded = true) (c : Chip) : d.useChip c = (d, c) := by
  rw [hasEnded] at h
  split at h
  next hphase => rw [useChip, hphase]
  all_goals cases h

/-- A driver that has been told to stop ends at its next round. -/
theorem hasEnded_of_stop (h : d.stop = true) (c : Chip) : (d.poll.useChip c).1.hasEnded = true :=
  match d, h with
  | ⟨_, true, .waiting, _⟩, _ | ⟨_, true, .due, _⟩, _ | ⟨_, true, .ended _, _⟩, _ => rfl

/-! ### What stays -/

theorem poll_phase (d : Driver) : ∃ phase, d.poll = { d with phase } := by
  rw [poll]
  split
  · exact ⟨_, rfl⟩
  all_goals exact ⟨d.phase, rfl⟩

theorem useChip_phase (d : Driver) (c : Chip) : ∃ phase, (d.useChip c).1 = { d with phase } := by
  rw [useChip]
  split
  · split
    · exact ⟨_, rfl⟩
    · split <;> exact ⟨_, rfl⟩
  all_goals exact ⟨d.phase, rfl⟩

theorem join_fault (d : Driver) : ∃ fault, d.join = { d with fault } := by
  rw [join]
  split
  · exact ⟨_, rfl⟩
  all_goals exact ⟨d.fault, rfl⟩

/-- A driver keeps its run, and does not forget that it has been told to stop. -/
theorem Becomes.keeps (h : d.Becomes d') : d'.run = d.run ∧ (d.stop = true → d'.stop = true) := by
  cases h with
  | same => exact ⟨rfl, id⟩
  | tellToStop => exact ⟨rfl, fun _ => rfl⟩
  | poll =>
    obtain ⟨phase, hpoll⟩ := poll_phase d
    rw [hpoll]
    exact ⟨rfl, id⟩
  | useChip c =>
    obtain ⟨phase, huse⟩ := useChip_phase d c
    rw [huse]
    exact ⟨rfl, id⟩
  | join =>
    obtain ⟨fault, hjoin⟩ := join_fault d
    rw [hjoin]
    exact ⟨rfl, id⟩

theorem join_join (d : Driver) : d.join.join = d.join :=
  match d with
  | ⟨_, _, .waiting, _⟩ | ⟨_, _, .due, _⟩ | ⟨_, _, .ended none, _⟩ | ⟨_, _, .ended (some _), _⟩ => rfl

theorem hasEnded_join (d : Driver) : d.join.hasEnded = d.hasEnded := by
  obtain ⟨fault, hjoin⟩ := join_fault d
  rw [hjoin]
  rfl

theorem join_done (hstop : d.stop = true) (hended : d.hasEnded = true) : d.join.Done :=
  ⟨Becomes.join.keeps.2 hstop, (hasEnded_join d).trans hended, join_join d⟩

theorem Done.tellToStop (h : d.Done) : d.tellToStop = d := by
  rw [Driver.tellToStop, ← h.stop]

theorem Done.becomes (h : d.Done) (hd : d.Becomes d') : d' = d := by
  cases hd with
  | same => rfl
  | poll => exact poll_of_ended h.ended
  | useChip c => rw [useChip_of_ended h.ended]
  | tellToStop => exact h.tellToStop
  | join => exact h.joined

end Driver

namespace Session

/-- The session after some steps. -/
def after (s : Session) (steps : List Step) : Session := steps.foldl step s

variable {s : Session}

theorem after_cons (s : Session) (first : Step) (rest : List Step) :
    s.after (first :: rest) = (s.step first).after rest := rfl

/-- What every step keeps is kept by all of them. -/
theorem after_induct {P : Session → Prop} (hstep : ∀ s next, P s → P (step s next))
    (steps : List Step) (h : P s) : P (s.after steps) := by
  induction steps generalizing s with
  | nil => exact h
  | cons first rest ih => exact ih (hstep s first h)

/-! ### The chip -/

theorem start_ok_iff {i : Nat} {t : Session} : s.start = .ok (i, t) ↔
    ∃ chip, s.chip.boot = .ok chip ∧ i = s.drivers.size ∧
      ⟨chip, s.drivers.push (Driver.start chip.boots)⟩ = t := by
  rw [start, bind_ok_iff]
  refine exists_congr fun chip => and_congr_right fun _ => ?_
  rw [pure_ok_iff, Prod.mk.injEq, eq_comm (a := i)]

theorem step_start {i : Nat} {t : Session} (h : s.start = .ok (i, t)) : s.step .start = t := by
  rw [step, h]

theorem step_useChip {i : Nat} {d : Driver} (h : s.drivers[i]? = some d) :
    s.step (.useChip i) =
      ⟨(d.useChip s.chip).2, s.drivers.modify i fun _ => (d.useChip s.chip).1⟩ := by
  simp only [step, h]

/-- A step boots the chip or goes on with it. -/
theorem chip_step (s : Session) (next : Step) :
    s.chip.Continues (s.step next).chip ∨ s.chip.Boots (s.step next).chip := by
  have untouched : s.chip.Continues s.chip := .refl s.chip
  cases next with
  | host call => exact s.chip.perform_cases call
  | start =>
    cases hstart : s.start with
    | error e =>
      rw [step, hstart]
      exact .inl untouched
    | ok result =>
      obtain ⟨i, t⟩ := result
      obtain ⟨chip, hboot, -, rfl⟩ := start_ok_iff.1 hstart
      rw [step_start hstart]
      exact .inr (Chip.boots_of_boot hboot)
  | poll | tellToStop | join => exact .inl untouched
  | useChip i =>
    refine .inl ?_
    cases hd : s.drivers[i]? with
    | none =>
      simp only [step, hd]
      exact untouched
    | some d =>
      rw [step_useChip hd]
      rcases d.useChip_cases s.chip with ⟨-, h⟩ | ⟨-, h⟩ <;> rw [h]
      · exact s.chip.continues_cycle
      · exact untouched
  | release i =>
    refine .inl ?_
    cases hd : s.drivers[i]? with
    | none =>
      simp only [step, hd]
      exact untouched
    | some d =>
      simp only [step, hd, Driver.release]
      split
      · split
        · exact s.chip.continues_halt
        · exact untouched
      · exact untouched

theorem boots_le_step (s : Session) (next : Step) : s.chip.boots ≤ (s.step next).chip.boots := by
  rcases chip_step s next with h | h
  · exact Nat.le_of_eq h.boots.symm
  · exact h.boots ▸ Nat.le_succ _

/-! ### The drivers -/

/-- The place of a driver in a session and in the session one step later. -/
inductive Slot (s s' : Session) (i : Nat) : Prop
  | kept {d d' : Driver} (before : s.drivers[i]? = some d) (after : s'.drivers[i]? = some d')
      (h : d.Becomes d')
  | started (before : i = s.drivers.size)
      (after : s'.drivers[i]? = some (Driver.start s'.chip.boots)) (h : s.chip.Boots s'.chip)
  | empty (before : s.drivers[i]? = none) (after : s'.drivers[i]? = none)

theorem slot_same {s s' : Session} (i : Nat) (h : s'.drivers = s.drivers) : Slot s s' i := by
  cases hd : s.drivers[i]? with
  | none => exact .empty hd (h ▸ hd)
  | some d => exact .kept hd (h ▸ hd) .same

theorem slot_modify {s s' : Session} {j : Nat} {f : Driver → Driver} (i : Nat)
    (hf : ∀ d, s.drivers[j]? = some d → d.Becomes (f d)) (h : s'.drivers = s.drivers.modify j f) :
    Slot s s' i := by
  have hslot : s'.drivers[i]? = if j = i then s.drivers[i]?.map f else s.drivers[i]? := by
    rw [h, Array.getElem?_modify]
  cases hd : s.drivers[i]? with
  | none =>
    rw [hd, Option.map_none, ite_self] at hslot
    exact .empty hd hslot
  | some d =>
    rw [hd, Option.map_some] at hslot
    split at hslot
    next hj => exact .kept hd hslot (hf d (hj ▸ hd))
    next => exact .kept hd hslot .same

theorem slot_step (s : Session) (next : Step) (i : Nat) : Slot s (s.step next) i := by
  cases next with
  | host call => exact slot_same i (by rfl)
  | start =>
    cases hstart : s.start with
    | error e =>
      rw [step, hstart]
      exact slot_same i (by rfl)
    | ok result =>
      obtain ⟨j, t⟩ := result
      obtain ⟨chip, hboot, -, rfl⟩ := start_ok_iff.1 hstart
      rw [step_start hstart]
      by_cases hi : i = s.drivers.size
      · subst hi
        exact .started rfl Array.getElem?_push_size (Chip.boots_of_boot hboot)
      · have hslot : (s.drivers.push (Driver.start chip.boots))[i]? = s.drivers[i]? := by
          rw [Array.getElem?_push, if_neg hi]
        cases hd : s.drivers[i]? with
        | none => exact .empty hd (hslot.trans hd)
        | some d => exact .kept hd (hslot.trans hd) .same
  | poll j => exact slot_modify i (fun _ _ => .poll) rfl
  | tellToStop j => exact slot_modify i (fun _ _ => .tellToStop) rfl
  | join j => exact slot_modify i (fun _ _ => .join) rfl
  | useChip j =>
    cases hd : s.drivers[j]? with
    | none =>
      simp only [step, hd]
      exact slot_same i (by rfl)
    | some d =>
      rw [step_useChip hd]
      refine slot_modify (f := fun _ => (d.useChip s.chip).1) i (fun d' hd' => ?_) rfl
      cases hd.symm.trans hd'
      exact .useChip s.chip
  | release j =>
    cases hd : s.drivers[j]? with
    | none =>
      simp only [step, hd]
      exact slot_same i (by rfl)
    | some d =>
      simp only [step, hd]
      exact slot_same i (by rfl)

theorem driver_step {i : Nat} {d : Driver} (hd : s.drivers[i]? = some d) (next : Step) :
    ∃ d', (s.step next).drivers[i]? = some d' ∧ d.Becomes d' := by
  cases slot_step s next i with
  | kept before after h =>
    cases hd.symm.trans before
    exact ⟨_, after, h⟩
  | started before after h =>
    rw [before, Array.getElem?_size] at hd
    cases hd
  | empty before after => cases hd.symm.trans before

/-! ### Runs -/

/-- The drivers of a session are told apart by their runs, none of which is yet to come. -/
structure Numbered (s : Session) : Prop where
  run_le : ∀ (i : Nat) (d : Driver), s.drivers[i]? = some d → d.run ≤ s.chip.boots
  unique : ∀ (i j : Nat) (d d' : Driver), s.drivers[i]? = some d → s.drivers[j]? = some d' → d.run = d'.run → i = j

theorem ofChip_numbered (c : Chip) : (ofChip c).Numbered :=
  ⟨fun _ _ h => by simp [ofChip] at h, fun _ _ _ _ h => by simp [ofChip] at h⟩

/-- A run is one there was before, or the number of the boot that has just happened. -/
theorem Slot.run_cases {s' : Session} {i : Nat} {d : Driver} (h : Slot s s' i)
    (hd : s'.drivers[i]? = some d) : (∃ e, s.drivers[i]? = some e ∧ d.run = e.run) ∨
      i = s.drivers.size ∧ s.chip.Boots s'.chip ∧ d.run = s'.chip.boots := by
  cases h with
  | kept before after hbecomes =>
    cases hd.symm.trans after
    exact .inl ⟨_, before, hbecomes.keeps.1⟩
  | started before after hboots =>
    cases hd.symm.trans after
    exact .inr ⟨before, hboots, rfl⟩
  | empty before after => cases hd.symm.trans after

theorem Numbered.step (h : s.Numbered) (next : Step) : (s.step next).Numbered where
  run_le i d hd := by
    rcases (slot_step s next i).run_cases hd with ⟨e, he, hrun⟩ | ⟨-, -, hrun⟩
    · rw [hrun]
      exact Nat.le_trans (h.run_le i e he) (boots_le_step s next)
    · exact Nat.le_of_eq hrun
  unique i j d d' hd hd' hrun := by
    rcases (slot_step s next i).run_cases hd with ⟨e, he, hdrun⟩ | ⟨hi, hboots, hdrun⟩ <;>
      rcases (slot_step s next j).run_cases hd' with ⟨e', he', hdrun'⟩ | ⟨hj, hboots', hdrun'⟩
    · exact h.unique i j e e' he he' (hdrun.symm.trans (hrun.trans hdrun'))
    -- The run of a driver that has just been started is higher than all runs there were.
    · have hle := h.run_le i e he
      have hnew := hboots'.boots
      omega
    · have hle := h.run_le j e' he'
      have hnew := hboots.boots
      omega
    · exact hi.trans hj.symm

theorem Numbered.after (h : s.Numbered) (steps : List Step) : (s.after steps).Numbered :=
  after_induct (fun _ next h => h.step next) steps h

end Session

end Microcontroller
