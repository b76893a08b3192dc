import Microcontroller.Isa.M1047
import Microcontroller.Proofs.Chip.Boots
import Microcontroller.Proofs.Chip.Run
/-!
# What a chip's history tells

A chip's stage of life, the number of its boots and the fault it remembers are a record of what has
happened to it: boots, halts and resets, cycles that ended the program or faulted, and faults cleared.
Cycles happen at any stage, one by one or in runs, and the ends they come to are events like those that
the host causes. One event changes the record in a way of its own, so that the record of a whole history
is found event by event, and what it says can be said in terms of which events there were since which
others.
-/

namespace Microcontroller

inductive Event where
  | boot
  | halt
  | reset
  /-- A cycle ended the program. -/
  | stop
  /-- A cycle faulted. -/
  | fault (cause : Fault)
  | clearFault
  deriving DecidableEq

namespace Event

/-- After such an event a chip is not booted. -/
def Ends : Event → Prop
  | halt | reset | stop | fault _ => True
  | boot | clearFault => False

/-- After such an event a chip is no longer as it was constructed. -/
def Uses : Event → Prop
  | boot | stop | fault _ => True
  | halt | reset | clearFault => False

def Faults : Event → Prop
  | fault _ => True
  | boot | halt | reset | stop | clearFault => False

/-- After such an event no fault is remembered. -/
def Forgets : Event → Prop
  | reset | clearFault => True
  | boot | halt | stop | fault _ => False

/-- What a cycle with this result is in the life of its chip. -/
def ofCycle : Except Fault Flow → List Event
  | .ok .stop => [stop]
  | .ok .next | .ok (.jump _) => []
  | .error cause => [fault cause]

end Event

/-! ### Events since events -/

/-- There was an event of one kind, and none of the other after it. -/
def HappenedSince (P Q : Event → Prop) (events : List Event) : Prop :=
  ∃ before e after, events = before ++ e :: after ∧ P e ∧ ∀ e' ∈ after, ¬ Q e'

section

variable {P Q : Event → Prop} {events : List Event}

theorem not_happenedSince_nil : ¬ HappenedSince P Q [] := by
  rintro ⟨before, e, after, h, -⟩
  exact absurd h.symm (List.append_ne_nil_of_right_ne_nil before (List.cons_ne_nil e after))

/-- Of the last event it is only asked what kind it is. -/
theorem happenedSince_concat {e : Event} :
    HappenedSince P Q (events ++ [e]) ↔ P e ∨ HappenedSince P Q events ∧ ¬ Q e := by
  constructor
  · rintro ⟨before, e', after, h, hP, hQ⟩
    rcases List.eq_nil_or_concat after with rfl | ⟨after, last, rfl⟩
    · obtain ⟨-, h⟩ := List.append_inj' h rfl
      cases h
      exact .inl hP
    · rw [List.concat_eq_append] at h hQ
      rw [← List.cons_append, ← List.append_assoc] at h
      obtain ⟨rfl, hlast⟩ := List.append_inj' h rfl
      cases hlast
      exact .inr ⟨⟨before, e', after, rfl, hP,
        fun e' he' => hQ e' (List.mem_append_left _ he')⟩,
        hQ e (List.mem_append_right _ (List.mem_singleton_self e))⟩
  · rintro (hP | ⟨⟨before, e', after, rfl, hP, hQ⟩, hlast⟩)
    · exact ⟨events, e, [], rfl, hP, nofun⟩
    · refine ⟨before, e', after ++ [e], List.append_assoc .., hP, ?_⟩
      rw [List.forall_mem_append, List.forall_mem_singleton]
      exact ⟨hQ, hlast⟩

/-- What one event brings about, and another undoes, is there if the one has happened since the
other. -/
theorem happenedSince_concat_of {before after : Prop} {e : Event}
    (h : before ↔ HappenedSince P Q events) (hstep : after ↔ P e ∨ before ∧ ¬ Q e) :
    after ↔ HappenedSince P Q (events ++ [e]) := by
  rw [hstep, h, happenedSince_concat]

end

/-! ### The record of a history -/

/-- What a chip keeps of its history. -/
structure Life where
  stage : Lifecycle
  /-- Counted like `Chip.boots`. -/
  boots : Nat
  fault : Option Fault

namespace Life

def after (l : Life) : Event → Life
  | .boot => { l with stage := .booted, boots := l.boots + 1 }
  | .halt => { l with stage := if l.stage = .booted then .halted else l.stage }
  | .reset => { l with stage := .constructed, fault := none }
  | .stop => { l with stage := .halted }
  | .fault cause => { l with stage := .halted, fault := some cause }
  | .clearFault => { l with fault := none }

variable (l : Life) (e : Event)

theorem boots_after : (l.after e).boots = l.boots + if e = .boot then 1 else 0 := by
  cases e <;> rfl

theorem booted_after :
    (l.after e).stage = .booted ↔ e = .boot ∨ l.stage = .booted ∧ ¬ e.Ends := by
  cases e with
  | halt =>
    refine iff_of_false (fun h => ?_) (by simp [Event.Ends])
    simp only [after] at h
    split at h
    · cases h
    · contradiction
  | _ => simp [after, Event.Ends]

theorem used_after :
    (l.after e).stage ≠ .constructed ↔ e.Uses ∨ l.stage ≠ .constructed ∧ e ≠ .reset := by
  cases e with
  | halt =>
    simp only [after]
    split
    next hbooted => simp [Event.Uses, hbooted]
    next => simp [Event.Uses]
  | _ => simp [after, Event.Uses]

theorem fault_after (cause : Fault) : (l.after e).fault = some cause ↔
    e = .fault cause ∨ l.fault = some cause ∧ ¬ (e.Faults ∨ e.Forgets) := by
  cases e <;> simp [after, Event.Faults, Event.Forgets]

theorem faulted_after :
    (l.after e).fault ≠ none ↔ e.Faults ∨ l.fault ≠ none ∧ ¬ e.Forgets := by
  cases e <;> simp [after, Event.Faults, Event.Forgets]

/-- A life says of a history what is kept of it. -/
structure Records (events : List Event) (l : Life) : Prop where
  boots : l.boots = events.count .boot
  booted : l.stage = .booted ↔ HappenedSince (· = .boot) Event.Ends events
  used : l.stage ≠ .constructed ↔ HappenedSince Event.Uses (· = .reset) events
  fault : ∀ cause, l.fault = some cause ↔
    HappenedSince (· = .fault cause) (fun e => e.Faults ∨ e.Forgets) events
  faulted : l.fault ≠ none ↔ HappenedSince Event.Faults Event.Forgets events

theorem records_nil : Records [] ⟨.constructed, 0, none⟩ where
  boots := rfl
  booted := iff_of_false nofun not_happenedSince_nil
  used := iff_of_false (not_not.2 rfl) not_happenedSince_nil
  fault _ := iff_of_false nofun not_happenedSince_nil
  faulted := iff_of_false (not_not.2 rfl) not_happenedSince_nil

variable {events : List Event} {l}

theorem Records.after (h : Records events l) (e : Event) : Records (events ++ [e]) (l.after e) where
  boots := by
    rw [boots_after, h.boots, List.count_append, List.count_singleton]
    simp only [beq_iff_eq]
  booted := happenedSince_concat_of h.booted (booted_after l e)
  used := happenedSince_concat_of h.used (used_after l e)
  fault cause := happenedSince_concat_of (h.fault cause) (fault_after l e cause)
  faulted := happenedSince_concat_of h.faulted (faulted_after l e)

theorem Records.foldl (h : Records events l) (later : List Event) :
    Records (events ++ later) (later.foldl Life.after l) := by
  induction later generalizing events l with
  | nil => rwa [List.append_nil]
  | cons e later ih =>
    rw [List.append_cons]
    exact ih (h.after e)

end Life

/-! ### The history of a chip -/

namespace Chip

def life (c : Chip) : Life := ⟨c.lifecycle, c.boots, c.fault⟩

/-- What happens in a number of cycles. -/
def cycleEvents (c : Chip) : Nat → List Event
  | 0 => []
  | n + 1 => Event.ofCycle c.cycle.1 ++ c.cycle.2.cycleEvents n

/-- What happens in a call. Only a boot that is not refused is a boot, and a run is its cycles. -/
def events (c : Chip) : HostCall → List Event
  | .boot => if c.boot.isOk then [.boot] else []
  | .halt => [.halt]
  | .reset => [.reset]
  | .cycle => c.cycleEvents 1
  | .run limit => c.cycleEvents (c.run limit).1.cycles
  | .clearFault => [.clearFault]
  | _ => []

/-- What happens in one call after the other. -/
def history (c : Chip) : List HostCall → List Event
  | [] => []
  | call :: calls => c.events call ++ (c.perform call).history calls

variable {c c' : Chip}

theorem life_cycle (c : Chip) :
    c.cycle.2.life = (Event.ofCycle c.cycle.1).foldl Life.after c.life := by
  rcases cycle_own c with ⟨fault, s, size, h⟩ | ⟨flow, s, size, h⟩
  all_goals rw [h]
  · rfl
  · cases flow <;> rfl

theorem life_afterCycles (c : Chip) (n : Nat) :
    (c.afterCycles n).life = (c.cycleEvents n).foldl Life.after c.life := by
  induction n generalizing c with
  | zero => rfl
  | succ n ih => rw [afterCycles, ih, life_cycle, cycleEvents, List.foldl_append]

theorem life_boot (c : Chip) :
    (c.perform .boot).life = (c.events .boot).foldl Life.after c.life := by
  rw [perform, events]
  by_cases h : c.lifecycle = .booted
  · rw [boot_of_booted h]
    rfl
  · rw [boot_of_not_booted h]
    rfl

theorem life_halt (c : Chip) : c.halt.life = c.life.after .halt := by
  by_cases h : c.lifecycle = .booted
  · rw [halt_of_booted h, Life.after, life, life, if_pos h]
  · rw [halt_of_not_booted h, Life.after, life, if_neg h]

theorem Stored.life (h : c.Stored c') : c'.life = c.life := by
  obtain ⟨s, rfl⟩ := h
  rfl

/-- A call changes the record by what happens in it. -/
theorem life_perform (c : Chip) (call : HostCall) :
    (c.perform call).life = (c.events call).foldl Life.after c.life := by
  cases call with
  | boot => exact life_boot c
  | halt => exact life_halt c
  | reset | clearFault => rfl
  | cycle => exact life_afterCycles c 1
  | run limit =>
    rw [perform, run_eq_afterCycles]
    exact life_afterCycles c _
  | _ => exact (c.stored_perform rfl).life

theorem life_calls (c : Chip) (calls : List HostCall) :
    (calls.foldl perform c).life = (c.history calls).foldl Life.after c.life := by
  induction calls generalizing c with
  | nil => rfl
  | cons call calls ih => rw [List.foldl_cons, ih, life_perform, history, List.foldl_append]

/-- The life of a chip, whatever the host has done with it since it was new. A chip can be booted when
it is not, and only then does booting change anything. Boots are counted for good. A chip is booted if
there was a boot and nothing after it that ends it; it is as constructed if it has not been used since
it was last reset, and then the first boot clears the status register, while any other leaves alone
what the chip stores. The fault it remembers is that of the last cycle that faulted, if it was not
cleared or reset away since. -/
theorem life_history {set : InstructionSet} {config : Config} {policy : FaultPolicy} {c₀ : Chip}
    (h : new set config policy = .ok c₀) (calls : List HostCall) :
    let c := calls.foldl perform c₀
    let events := c₀.history calls
    (((∃ e, c.boot = .error e) ↔ c.lifecycle = .booted) ∧
      (c.lifecycle = .booted → c.perform .boot = c)) ∧
    c.boots = events.count .boot ∧
    (c.lifecycle = .booted ↔ HappenedSince (· = .boot) Event.Ends events) ∧
    (c.lifecycle = .constructed ↔ ¬ HappenedSince Event.Uses (· = .reset) events) ∧
    (∀ c', c.boot = .ok c' → c'.storage = if c.lifecycle = .constructed then
      { c.storage with status := c.storage.status.clear } else c.storage) ∧
    (∀ cause, c.fault = some cause ↔
      HappenedSince (· = .fault cause) (fun e => e.Faults ∨ e.Forgets) events) ∧
    (c.fault = none ↔ ¬ HappenedSince Event.Faults Event.Forgets events) := by
  intro c events
  have hnew : c₀.life = ⟨.constructed, 0, none⟩ := by
    obtain ⟨-, w, -, rfl⟩ := new_ok_iff.1 h
    rfl
  have hrecords : Life.Records events c.life := by
    rw [life_calls, hnew]
    exact Life.records_nil.foldl events
  refine ⟨⟨?_, fun hbooted => ?_⟩, hrecords.boots, hrecords.booted,
    (not_iff_comm.1 hrecords.used).symm, fun c' hc' => ?_, hrecords.fault,
    (not_iff_comm.1 hrecords.faulted).symm⟩
  · rw [exists_error_iff, exists_boot_iff, not_not]
  · rw [perform, boot_of_booted hbooted]
    rfl
  · have hstage : c.lifecycle ≠ .booted := exists_boot_iff.1 ⟨c', hc'⟩
    rw [boot_of_not_booted hstage] at hc'
    cases hc'
    rfl

/-- A chip that was reset, and then booted and run to a cell that is no instruction. The boot that was
refused is none, and halting does not make the chip forget. -/
theorem life_history_fault :
    let config : Config := { Config.m1047 with registers := 1, ram := 1, rom := 2, mapped := 0 }
    let c₀ := blank M1047.instructionSet config .w8 .halt
    let calls : List HostCall :=
      [.boot, .reset, .loadProgram 0 [0, 0xFF], .boot, .boot, .run 5, .halt]
    let c := calls.foldl perform c₀
    new M1047.instructionSet config .halt = .ok c₀ ∧
      c₀.history calls = [.boot, .reset, .boot, .fault (.illegalInstruction 1 0xFF), .halt] ∧
      c.boots = 2 ∧ c.lifecycle ≠ .booted ∧ c.lifecycle ≠ .constructed ∧
      c.fault = some (.illegalInstruction 1 0xFF) := by
  intro config c₀ calls c
  have hnew : new M1047.instructionSet config .halt = .ok c₀ := rfl
  have hhistory : c₀.history calls =
      [.boot, .reset, .boot, .fault (.illegalInstruction 1 0xFF), .halt] := by decide +kernel
  obtain ⟨-, hboots, hbooted, hconstructed, -, hfault, -⟩ := life_history hnew calls
  rw [hhistory] at hboots hbooted hconstructed hfault
  refine ⟨hnew, hhistory, hboots, fun h => ?_, fun h => ?_, (hfault _).2 ?_⟩
  · have hsince := hbooted.1 h
    rw [← List.dropLast_concat_getLast (List.cons_ne_nil _ _)] at hsince
    obtain hhalt | ⟨-, hhalt⟩ := happenedSince_concat.1 hsince
    · cases hhalt
    · exact hhalt trivial
  · refine hconstructed.1 h ⟨[.boot, .reset, .boot], _, [.halt], rfl, trivial, ?_⟩
    exact List.forall_mem_singleton.2 nofun
  · refine ⟨[.boot, .reset, .boot], _, [.halt], rfl, rfl, ?_⟩
    exact List.forall_mem_singleton.2 (not_or.2 ⟨id, id⟩)

end Chip

end Microcontroller
