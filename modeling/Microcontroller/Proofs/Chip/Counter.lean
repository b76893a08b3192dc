import Microcontroller.Isa.M1047
import Microcontroller.Proofs.Chip.Numbers
import Microcontroller.Proofs.Image.Snapshot
/-!
# The cycle counter

A cycle that is executed is counted, and one that faults is not. The counter has 64 bits, and a restored
chip goes on from the count in its snapshot, whatever that is. So it is executed only as many cycles as
there are numbers of 64 bits above that count: the next one overflows the counter. An image can hold any
count, the last number of 64 bits too.
-/

namespace Microcontroller.Chip

variable {set : InstructionSet} {c : Chip}

/-! ### Counting on -/

theorem afterCycles_succ (c : Chip) (n : Nat) : c.afterCycles (n + 1) = (c.afterCycles n).cycle.2 := by
  induction n generalizing c with
  | zero => rfl
  | succ n ih => exact ih c.cycle.2

/-- Of the first `n` cycles, those that are executed. -/
def succeeded (c : Chip) (n : Nat) : Nat :=
  (List.range n).countP fun k => (c.afterCycles k).cycle.1.isOk

theorem succeeded_succ (c : Chip) (n : Nat) :
    c.succeeded (n + 1) = c.succeeded n + (c.afterCycles n).cycle.1.isOk.toNat := by
  rw [succeeded, List.range_succ, List.countP_append, List.countP_singleton, succeeded]
  cases (c.afterCycles n).cycle.1.isOk <;> rfl

theorem cycles_cycle (c : Chip) :
    c.cycle.2.storage.cycles = c.storage.cycles + c.cycle.1.isOk.toNat := by
  cases hcycle : c.cycle with
  | mk result c' =>
  cases result with
  | error fault => exact cycles_of_error hcycle
  | ok flow => exact cycles_of_ok hcycle

/-- Without an end, the counter is as far on as cycles have been executed. -/
theorem cycles_afterCycles (c : Chip) (n : Nat) :
    (c.afterCycles n).storage.cycles = c.storage.cycles + c.succeeded n := by
  induction n with
  | zero => rfl
  | succ n ih => rw [afterCycles_succ, cycles_cycle, succeeded_succ, ih, Nat.add_assoc]

/-! ### Up to the end -/

/-- The chip after a number of cycles, whatever becomes of them, if none overflows its counter. -/
def afterCycles? (c : Chip) : Nat → Except Overflow Chip
  | 0 => .ok c
  | n + 1 => do (← c.cycle?).2.afterCycles? n

theorem afterCycles?_eq (h : c.storage.cycles < 2 ^ 64) (n : Nat) :
    c.afterCycles? n =
      if c.storage.cycles + c.succeeded n < 2 ^ 64 then .ok (c.afterCycles n) else .error .cycles := by
  rw [← cycles_afterCycles]
  induction n generalizing c with
  | zero => exact (if_pos h).symm
  | succ n ih =>
    rw [afterCycles?, afterCycles, cycle?_eq h]
    rcases Nat.lt_or_ge c.cycle.2.storage.cycles (2 ^ 64) with hroom | hfull
    · rw [counted_of_lt hroom]
      exact ih hroom
    · have hlater := cycles_afterCycles c.cycle.2 n
      rw [counted_of_le hfull, if_neg (by omega)]
      rfl

theorem run?_eq_succeeded (h : c.storage.cycles < 2 ^ 64) (limit : Nat) :
    c.run? limit =
      if c.storage.cycles + c.succeeded (c.run limit).1.cycles < 2 ^ 64 then .ok (c.run limit)
      else .error .cycles := by
  rw [run?_eq h, counted, run_eq_afterCycles, cycles_afterCycles]

/-- What a cycle does to the counter of 64 bits. It is counted if it is executed, which only the last
count has no room for. -/
structure Counts (c : Chip) : Prop where
  executed : ∀ flow c', c.cycle? = .ok (.ok flow, c') → c'.storage.cycles = c.storage.cycles + 1
  faulted : ∀ fault c', c.cycle? = .ok (.error fault, c') → c'.storage.cycles = c.storage.cycles
  overflows : c.cycle? = .error .cycles ↔ c.cycle.1.isOk = true ∧ c.storage.cycles = 2 ^ 64 - 1

theorem counts (h : c.storage.cycles < 2 ^ 64) : c.Counts where
  executed flow c' hcycle := by
    rw [cycle?_eq h, counted_ok_iff] at hcycle
    exact cycles_of_ok hcycle.1
  faulted fault c' hcycle := by
    rw [cycle?_eq h, counted_ok_iff] at hcycle
    exact cycles_of_error hcycle.1
  overflows := by
    rw [cycle?_eq h, counted_error_iff, and_iff_right rfl, cycles_cycle]
    cases c.cycle.1.isOk <;> simp <;> omega

/-! ### Counting on from an image -/

/-- The counter of a chip that is restored from an image. Cycles, one by one or in a run, overflow it as
soon as more of them are executed than there are numbers of 64 bits above the count in the image. As long
as they do not, it is as far on from that count as cycles have been executed: one that is executed adds
one to it, and one that faults leaves it. -/
theorem restored_counts {image : List Byte} {s : Snapshot} {policy : FaultPolicy}
    (hread : Snapshot.ofBytes image = .ok s) (hc : ofSnapshot set s policy = .ok c) :
    (∀ n, c.afterCycles? n =
      if s.cycles + c.succeeded n < 2 ^ 64 then .ok (c.afterCycles n) else .error .cycles) ∧
    (∀ limit, c.run? limit =
      if s.cycles + c.succeeded (c.run limit).1.cycles < 2 ^ 64 then .ok (c.run limit)
      else .error .cycles) ∧
    ∀ n c', c.afterCycles? n = .ok c' →
      c'.storage.cycles = s.cycles + c.succeeded n ∧ c'.Counts := by
  obtain ⟨hbounded, -⟩ := Snapshot.ofBytes_ok_iff.1 hread
  have hcycles : c.storage.cycles = s.cycles := by
    obtain ⟨-, -, w, -, rfl⟩ := ofSnapshot_ok_iff.1 hc
    rfl
  have hlt : c.storage.cycles < 2 ^ 64 := hcycles ▸ hbounded.cycles
  rw [← hcycles]
  refine ⟨afterCycles?_eq hlt, run?_eq_succeeded hlt, fun n c' hn => ?_⟩
  rw [afterCycles?_eq hlt] at hn
  split at hn <;> cases hn
  next hroom =>
  have hcount := cycles_afterCycles c n
  exact ⟨hcount, counts (hcount ▸ hroom)⟩

/-- A chip with two instructions that do nothing and then a cell that is none. -/
def idling : Chip :=
  (blank M1047.instructionSet { Config.m1047 with registers := 1, ram := 1, rom := 3, mapped := 0 } .w8
    .halt).perform (.loadProgram 0 [0, 0, 0xFF])

/-- Its snapshot with another count, and at another instruction. -/
def counting (cycles ip : Nat) : Snapshot := { idling.snapshot with cycles, ip }

theorem idling_attainable : Attainable M1047.instructionSet idling := by
  have hnew : new M1047.instructionSet
      { Config.m1047 with registers := 1, ram := 1, rom := 3, mapped := 0 } .halt = .ok _ := rfl
  exact .perform (.loadProgram 0 [0, 0, 0xFF]) (.new (by constructor <;> decide) hnew) rfl

theorem ofBytes_counting {cycles ip : Nat} (hcycles : cycles < 2 ^ 64) (hip : ip < 2 ^ 32) :
    Snapshot.ofBytes (counting cycles ip).toBytes = .ok (counting cycles ip) := by
  obtain ⟨hbounded, -⟩ := Snapshot.ofBytes_ok_iff.1 idling_attainable.ofBytes_snapshot
  exact Snapshot.ofBytes_ok_iff.2 ⟨{ hbounded with cycles := hcycles, ip := hip }, List.prefix_rfl⟩

theorem ofSnapshot_counting (cycles ip : Nat) :
    ofSnapshot M1047.instructionSet (counting cycles ip) .halt =
      .ok (restored M1047.instructionSet .w8 .halt (counting cycles ip)) := by
  have hmatches := idling_attainable.reachable.conforms.snapshot_matches
  exact ofSnapshot_ok_iff.2 ⟨rfl, { hmatches with }, .w8, rfl, rfl⟩

/-- With a count of two below the end, the first of two instructions is counted, and the second overflows
the counter. With the last count an instruction that faults leaves it. -/
theorem restored_counts_last :
    let s := counting (2 ^ 64 - 2) 0
    let c := restored M1047.instructionSet .w8 .halt s
    let s' := counting (2 ^ 64 - 1) 2
    let c' := restored M1047.instructionSet .w8 .halt s'
    (Snapshot.ofBytes s.toBytes = .ok s ∧ ofSnapshot M1047.instructionSet s .halt = .ok c ∧
      c.afterCycles? 1 = .ok (c.afterCycles 1) ∧ (c.afterCycles 1).storage.cycles = 2 ^ 64 - 1 ∧
      c.afterCycles? 2 = .error .cycles ∧ c.run? 2 = .error .cycles) ∧
    Snapshot.ofBytes s'.toBytes = .ok s' ∧ ofSnapshot M1047.instructionSet s' .halt = .ok c' ∧
      c'.cycle.1 = .error (.illegalInstruction 2 0xFF) ∧
      c'.afterCycles? 1 = .ok (c'.afterCycles 1) ∧ (c'.afterCycles 1).storage.cycles = 2 ^ 64 - 1 := by
  intro s c s' c'
  have hread : Snapshot.ofBytes s.toBytes = .ok s := ofBytes_counting (by decide) (by decide)
  have hread' : Snapshot.ofBytes s'.toBytes = .ok s' := ofBytes_counting (by decide) (by decide)
  have hc : ofSnapshot M1047.instructionSet s .halt = .ok c := ofSnapshot_counting _ _
  have hc' : ofSnapshot M1047.instructionSet s' .halt = .ok c' := ofSnapshot_counting _ _
  have hs : s.cycles = 2 ^ 64 - 2 := rfl
  have hs' : s'.cycles = 2 ^ 64 - 1 := rfl
  have hone : c.succeeded 1 = 1 := by decide +kernel
  have htwo : c.succeeded 2 = 2 := by decide +kernel
  have hrun : (c.run 2).1.cycles = 2 := by decide +kernel
  have hnone : c'.succeeded 1 = 0 := by decide +kernel
  have hfault : c'.cycle.1 = .error (.illegalInstruction 2 0xFF) := by decide +kernel
  clear_value c s c' s'
  obtain ⟨hafter, hruns, hcount⟩ := restored_counts hread hc
  obtain ⟨hafter', -, hcount'⟩ := restored_counts hread' hc'
  have hok : c.afterCycles? 1 = .ok (c.afterCycles 1) := by
    rw [hafter, hone, hs, if_pos (by decide)]
  have hok' : c'.afterCycles? 1 = .ok (c'.afterCycles 1) := by
    rw [hafter', hnone, hs', if_pos (by decide)]
  refine ⟨⟨hread, hc, hok, ?_, ?_, ?_⟩, hread', hc', hfault, hok', ?_⟩
  · have hcounted := (hcount 1 _ hok).1
    omega
  · rw [hafter, htwo, hs, if_neg (by decide)]
  · rw [hruns, hrun, htwo, hs, if_neg (by decide)]
  · have hcounted := (hcount' 1 _ hok').1
    omega

/-- The counter of a restored chip can overflow: an image can hold the last count, and then a cycle that
is executed does not add one to it. -/
theorem not_counts_all :
    ¬ ∀ (set : InstructionSet) (image : List Byte) (s : Snapshot) (policy : FaultPolicy) (c : Chip),
      Snapshot.ofBytes image = .ok s → ofSnapshot set s policy = .ok c →
      ∀ n, ∃ c', c.afterCycles? n = .ok c' ∧ c'.storage.cycles = s.cycles + c.succeeded n := by
  intro hcounts
  obtain ⟨c', hc', -⟩ := hcounts _ _ _ _ _ (ofBytes_counting (by decide) (by decide))
    (ofSnapshot_counting (2 ^ 64 - 1) 0) 1
  have hone : (restored M1047.instructionSet .w8 .halt (counting (2 ^ 64 - 1) 0)).succeeded 1 = 1 := by
    decide +kernel
  rw [afterCycles?_eq (show 2 ^ 64 - 1 < 2 ^ 64 by decide), hone] at hc'
  cases hc'

end Microcontroller.Chip
