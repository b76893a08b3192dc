import Microcontroller.Proofs.Chip.Effect
import Microcontroller.Proofs.Chip.Fit
import Microcontroller.Proofs.Chip.Limbs
import Microcontroller.Proofs.Chip.Place
import Microcontroller.Proofs.M1047.Mnemonic
/-!
# Arithmetic on register pairs

`ADIW` and `SBIW` work on the two registers of a pointer as on one number of twice the width. That is
the same as working on the low register first and then, with the carry, on the high one: in the pair
that is left, in the carry, the overflow and the sign. The zero flag is that of the whole pair, and
nothing else changes.
-/

namespace Microcontroller.M1047

open Alu

variable {config : Config} {w : Width} {s : Storage} {row : Instruction}

/-- The two registers of a pair as one number. -/
def pairWord (w : Width) (s : Storage) (low high : Nat) : Nat :=
  s.valueAt (.register high) * 2 ^ w.bits + s.valueAt (.register low)

section

variable (op : Nat → Nat → Nat → Bool → Outcome) (w : Width) (s : Storage) (low high k : Nat)

/-- The step on the low register of a pair. -/
def lowStep : Outcome := op w.bits (s.valueAt (.register low)) k false

/-- The step on the high register, with the carry of the step before. -/
def highStep : Outcome :=
  op w.bits (s.valueAt (.register high)) 0 (lowStep op w s low k).carryOut

/-- Both at once. -/
def wideStep : Outcome := op (2 * w.bits) (pairWord w s low high) k false

end

/-- `s'` is `s` but for what is in these registers and these flags. -/
structure ChangesOnly (registers : List Nat) (flags : List Flag) (s s' : Storage) : Prop where
  register : ∀ i ∉ registers, s'.valueAt (.register i) = s.valueAt (.register i)
  status : ∀ i, (∀ f ∈ flags, instructionSet.flags.index f ≠ i) → s'.status.bit i = s.status.bit i
  flag : ∀ f ∉ flags, s'.flag instructionSet.flags f = s.flag instructionSet.flags f
  registers_size : s'.registers.size = s.registers.size
  status_len : s'.status.len = s.status.len
  rest : s' = { s with registers := s'.registers, status := s'.status }

/-- A pair holds the values of two outcomes, one for its low word and one for its high word. The flags
that the top decides are those of the second, and the zero flag is that of the pair. -/
structure LeavesPair (first second : Outcome) (low high : Nat) (s s' : Storage) : Prop where
  lowWord : s'.valueAt (.register low) = first.value
  highWord : s'.valueAt (.register high) = second.value
  top : ∀ f ∈ [Flag.carry, .overflow, .sign],
    second.flag? f = some (s'.flag instructionSet.flags f)
  zero : s'.flag instructionSet.flags .zero = true ↔ first.value = 0 ∧ second.value = 0
  only : ChangesOnly [low, high] [.zero, .carry, .overflow, .sign] s s'

theorem form_of_pair : ∀ row ∈ rows, row.operation ∈ [.addWord, .subtractWord] →
    row.flags = [.zero, .carry, .overflow, .sign] ∧ row.operands = [.pointer, .immediate] := by decide

/-! ### Writing a pair -/

theorem getD_put_put {c : Cells} {len low high v v' : Nat} (hc : c.Fits w len) (hlow : low < len)
    (hhigh : high < len) (hne : low ≠ high) (hv : v < w.capacity) (hv' : v' < w.capacity) :
    ((c.put low v).put high v').raw.getD low 0 = v ∧
      ((c.put low v).put high v').raw.getD high 0 = v' ∧
      ∀ i ∉ [low, high], ((c.put low v).put high v').raw.getD i 0 = c.raw.getD i 0 := by
  have hput := hc.put low v
  have hlow' : low < c.raw.size := hc.size.symm ▸ hlow
  have hhigh' : high < (c.put low v).raw.size := hput.size.symm ▸ hhigh
  refine ⟨?_, ?_, fun i hi => ?_⟩
  · rw [Cells.getD_put_of_ne _ hne, Cells.getD_put_self hlow', hc.width, Width.truncate_of_lt hv]
  · rw [Cells.getD_put_self hhigh', hput.width, Width.truncate_of_lt hv']
  · simp only [List.mem_cons, List.not_mem_nil, or_false, not_or] at hi
    rw [Cells.getD_put_of_ne _ hi.2, Cells.getD_put_of_ne _ hi.1]

/-- Storage after a plan that writes two registers, and the flags of an outcome. -/
def afterPair (d : Decoded) (low high v v' : Nat) (o : Outcome) (s : Storage) : Storage :=
  s.afterPlan instructionSet.flags
    ⟨[.register low v, .register high v'], Plan.declared d o, .next⟩

theorem afterPair_eq (d : Decoded) (low high v v' : Nat) (o : Outcome) (s : Storage) :
    afterPair d low high v v' o s =
      { s with
        registers := (s.registers.put low v).put high v'
        status := (afterPair d low high v v' o s).status } := by
  rw [afterPair, Storage.afterPlan, Storage.foldl_putFlag]
  rfl

section

variable (hs : s.Conforms config w instructionSet.statusBits) {low high : Nat}
  (hlow : low < config.registers) (hhigh : high < config.registers) (d : Decoded) (o : Outcome)

include hs hlow hhigh

theorem conforms_afterPair (v v' : Nat) :
    (afterPair d low high v v' o s).Conforms config w instructionSet.statusBits :=
  hs.afterPlan instructionSet.flags.index_lt_statusBits
    (Plan.fits_of_next (List.forall_mem_cons.2 ⟨hlow, List.forall_mem_singleton.2 hhigh⟩))

theorem flag_afterPair (v v' : Nat) {f : Flag} {value : Bool} (hf : f ∈ d.instruction.flags)
    (hvalue : o.flag? f = some value) :
    (afterPair d low high v v' o s).flag instructionSet.flags f = value := by
  rw [flag_eq_bit (conforms_afterPair hs hlow hhigh d o v v')]
  apply Storage.bit_foldl_putFlag_of_mem
  · exact hs.status.unit_lt (instructionSet.flags.index_lt_statusBits f)
  · exact Plan.mem_declared_iff.2 ⟨hf, hvalue⟩
  · intro value' hmem
    obtain ⟨-, hvalue'⟩ := Plan.mem_declared_iff.1 hmem
    exact Option.some.inj (hvalue'.symm.trans hvalue)

theorem changesOnly_afterPair {v v' : Nat} (hne : low ≠ high) (hv : v < w.capacity)
    (hv' : v' < w.capacity) :
    ChangesOnly [low, high] d.instruction.flags s (afterPair d low high v v' o s) := by
  have hafter := conforms_afterPair hs hlow hhigh d o v v'
  have hstatus : ∀ i, (∀ f ∈ d.instruction.flags, instructionSet.flags.index f ≠ i) →
      (afterPair d low high v v' o s).status.bit i = s.status.bit i := by
    intro i hi
    apply Storage.bit_foldl_putFlag_of_ne
    intro f hf
    exact hi f.1 (Plan.mem_declared_iff.1 hf).1
  have heq := afterPair_eq d low high v v' o s
  exact {
    register := by
      rw [heq]
      exact (getD_put_put hs.registers hlow hhigh hne hv hv').2.2
    status := hstatus
    flag := by
      intro f hf
      rw [flag_eq_bit hafter, flag_eq_bit hs]
      refine hstatus _ fun g hg hindex => hf ?_
      rwa [← instructionSet.flags.index_injective hindex]
    registers_size := hafter.registers.size.trans hs.registers.size.symm
    status_len := hafter.status.length.trans hs.status.length.symm
    rest := by
      rw [heq] }

/-- What is left when the words of a pair and the flags of their joined outcome are written. -/
theorem leavesPair_afterPair (hne : low ≠ high)
    (hflags : d.instruction.flags = [.zero, .carry, .overflow, .sign]) {first second wide : Outcome}
    (hfirst : first.OfWord w.bits) (hsecond : second.OfWord w.bits)
    (hjoins : Outcome.Joins w.bits first second wide)
    (hgives : ∀ f ∈ [Flag.carry, .overflow, .sign], ∃ value, wide.flag? f = some value) :
    LeavesPair first second low high s
      (afterPair d low high first.value second.value wide s) := by
  have hflag {f : Flag} {value : Bool} (hf : f ∈ [Flag.zero, .carry, .overflow, .sign])
      (hvalue : wide.flag? f = some value) :
      (afterPair d low high first.value second.value wide s).flag instructionSet.flags f = value :=
    flag_afterPair hs hlow hhigh d wide _ _ (hflags ▸ hf) hvalue
  obtain ⟨hlowWord, hhighWord, -⟩ :=
    getD_put_put hs.registers hlow hhigh hne hfirst.lt hsecond.lt
  have heq := afterPair_eq d low high first.value second.value wide s
  exact {
    lowWord := by
      rw [heq]
      exact hlowWord
    highWord := by
      rw [heq]
      exact hhighWord
    top := by
      intro f hf
      obtain ⟨value, hvalue⟩ := hgives f hf
      have hmem : f ∈ [Flag.zero, .carry, .overflow, .sign] := List.mem_cons_of_mem _ hf
      rw [hjoins.top.flag?_eq f hf, hvalue, hflag hmem hvalue]
    zero := by
      rw [hflag (by decide) rfl, hjoins.zero, Bool.and_eq_true, hfirst.zero, hsecond.zero,
        beq_iff_eq, beq_iff_eq]
    only := hflags ▸ changesOnly_afterPair hs hlow hhigh d wide hne hfirst.lt hsecond.lt }

end

/-! ### Executing -/

theorem pairWord_lt (hs : s.Conforms config w instructionSet.statusBits) (low high : Nat) :
    pairWord w s low high < 2 ^ (2 * w.bits) := by
  rw [pairWord, Nat.mul_comm, Nat.add_comm, Nat.two_mul]
  exact join_lt (hs.registers.getD_lt low) (hs.registers.getD_lt high)

/-- A wide operation on a pair joins its two steps. -/
theorem joins_steps (hs : s.Conforms config w instructionSet.statusBits)
    {op : Nat → Nat → Nat → Bool → Outcome} (hop : Splits op) (low high : Nat) {k : Nat}
    (hk : k < 2 ^ w.bits) :
    Outcome.Joins w.bits (lowStep op w s low k) (highStep op w s low high k)
      (wideStep op w s low high k) := by
  have hlow : s.valueAt (.register low) < 2 ^ w.bits := hs.registers.getD_lt low
  have hhigh : s.valueAt (.register high) < 2 ^ w.bits := hs.registers.getD_lt high
  have hjoins := hop w.bits w.bits _ k _ 0 false w.bits_pos hlow hk hhigh (Nat.two_pow_pos _)
  have hword : s.valueAt (.register low) + 2 ^ w.bits * s.valueAt (.register high) =
      pairWord w s low high := by
    rw [pairWord, Nat.mul_comm, Nat.add_comm]
  rwa [Nat.mul_zero, Nat.add_zero, ← Nat.two_mul, hword] at hjoins

theorem LeavesPair.pairWord_eq {first second wide : Outcome} {low high : Nat} {s' : Storage}
    (h : LeavesPair first second low high s s') (hjoins : Outcome.Joins w.bits first second wide) :
    pairWord w s' low high = wide.value := by
  rw [pairWord, h.lowWord, h.highWord, hjoins.value, Nat.mul_comm, Nat.add_comm]

/-- The pair of a pointer that exists. -/
theorem pair_written (hs : s.Conforms config w instructionSet.statusBits) {p low high cell : Nat}
    (hoperands : row.operands = [.pointer, .immediate])
    (hpair : (Pointer.ofIndex? p).bind (·.pair? config.registers) = some (low, high)) :
    Plan.pair ⟨row, [p, cell], w⟩ s = .ok (low, high) ∧ low < config.registers ∧
      high < config.registers ∧ low ≠ high := by
  obtain ⟨⟨hp, hle⟩, heq⟩ := Pointer.pair?_ofIndex?_eq_some_iff.1 hpair
  obtain ⟨hlow, hhigh⟩ := Prod.mk.inj heq
  have hsize : s.registers.size = config.registers := hs.registers.size
  refine ⟨Plan.pair_ok_iff.2 ⟨p, operand?_written hoperands .pointer, ?_⟩, ?_⟩
  · rw [hsize]
    exact ⟨⟨hp, hle⟩, heq⟩
  · omega

/-- An operation on a pair that exists and an immediate, in steps. -/
theorem execute_pair (hs : s.Conforms config w instructionSet.statusBits) (hrow : row ∈ rows)
    (hpairs : row.operation ∈ [.addWord, .subtractWord]) {op : Nat → Nat → Nat → Bool → Outcome}
    (hop : Splits op) (hword : ∀ bits a b carry, (op bits a b carry).OfWord bits)
    {p low high cell : Nat}
    (hpair : (Pointer.ofIndex? p).bind (·.pair? config.registers) = some (low, high))
    (honPair : Plan.ofOperation ⟨row, [p, cell], w⟩ s instructionSet.flags =
      Plan.onPair ⟨row, [p, cell], w⟩ s (op (2 * w.bits) · · false))
    {exact signed : Int} {carried halfCarry : Prop}
    (hreports : (wideStep op w s low high (cell % 2 ^ w.bits)).Reports (2 * w.bits) exact signed
      carried halfCarry) :
    ∃ s', execute w row.mnemonic [p, cell] s = .ok (.ok .next, s') ∧
      LeavesPair (lowStep op w s low (cell % 2 ^ w.bits))
        (highStep op w s low high (cell % 2 ^ w.bits)) low high s s' ∧
      (pairWord w s' low high : Int) = exact % 2 ^ (2 * w.bits) := by
  let d : Decoded := ⟨row, [p, cell], w⟩
  let wide := wideStep op w s low high (cell % 2 ^ w.bits)
  obtain ⟨hflags, hoperands⟩ := form_of_pair row hrow hpairs
  obtain ⟨hplanned, hlow, hhigh, hne⟩ := pair_written hs hoperands hpair
  have himmediate : Plan.immediate d s = .ok (cell % 2 ^ w.bits) :=
    Plan.immediate_ok_iff.2 ⟨cell, operand?_written hoperands .immediate, rfl⟩
  have hchecked : Plan.checkRegisters d s = .ok () :=
    checkRegisters_written hoperands (by simp [OperandKind.isRegister]) fun _ => ⟨_, hplanned⟩
  have hplan : Plan.ofOperation d s instructionSet.flags =
      .ok ⟨[.register low (wide.value % 2 ^ w.bits), .register high (wide.value / 2 ^ w.bits)],
        Plan.declared d wide, .next⟩ :=
    honPair.trans (Plan.onPair_ok_iff.2 ⟨(low, high), hplanned, _, himmediate, rfl⟩)
  -- The two halves of the wide value that the plan writes are the values of the two steps.
  have hjoins := joins_steps hs hop low high (Nat.mod_lt cell (Nat.two_pow_pos w.bits))
  have hfirst : (lowStep op w s low (cell % 2 ^ w.bits)).OfWord w.bits := hword _ _ _ _
  have hsecond : (highStep op w s low high (cell % 2 ^ w.bits)).OfWord w.bits := hword _ _ _ _
  rw [hjoins.mod_eq hfirst, hjoins.div_eq hfirst] at hplan
  have hleaves := leavesPair_afterPair hs hlow hhigh d hne hflags hfirst hsecond hjoins
    hreports.exists_flag
  refine ⟨afterPair d low high _ _ wide s, execute_of_plan hs hrow hchecked hplan, hleaves, ?_⟩
  rw [hleaves.pairWord_eq hjoins]
  exact hreports.value

/-- Arithmetic on a pair is arithmetic on one number of twice the width, and it is the same as two
steps: the immediate with the low register, and then zero with the high register and the carry. -/
theorem pair_arithmetic (hs : s.Conforms config w instructionSet.statusBits) {p low high : Nat}
    (hpair : (Pointer.ofIndex? p).bind (·.pair? config.registers) = some (low, high)) (cell : Nat) :
    let k := cell % 2 ^ w.bits
    (∃ s', execute w "ADIW" [p, cell] s = .ok (.ok .next, s') ∧
      pairWord w s' low high = (pairWord w s low high + k) % 2 ^ (2 * w.bits) ∧
      LeavesPair (lowStep add w s low k) (highStep add w s low high k) low high s s') ∧
    ∃ s', execute w "SBIW" [p, cell] s = .ok (.ok .next, s') ∧
      (pairWord w s' low high : Int) = ((pairWord w s low high : Int) - k) % 2 ^ (2 * w.bits) ∧
      LeavesPair (lowStep sub w s low k) (highStep sub w s low high k) low high s s' := by
  intro k
  have hbits : 0 < 2 * w.bits := Nat.mul_pos Nat.two_pos w.bits_pos
  have hword := pairWord_lt hs low high
  have hk : k < 2 ^ (2 * w.bits) := by
    have hlt : k < 2 ^ w.bits := w.truncate_lt cell
    exact Nat.lt_of_lt_of_le hlt (Nat.pow_le_pow_right Nat.two_pos (by omega))
  constructor
  · obtain ⟨row, hrow, hmnemonic, hop⟩ : ∃ row ∈ rows, row.mnemonic = "ADIW" ∧
      row.operation = .addWord := by decide
    have hpairs : row.operation ∈ [.addWord, .subtractWord] := by rw [hop]; decide
    obtain ⟨s', hexecute, hleaves, hvalue⟩ := execute_pair hs hrow hpairs add_splits add_ofWord hpair
      (by simp only [Plan.ofOperation, hop]) (add_reports hbits hword hk false)
    refine ⟨s', hmnemonic ▸ hexecute, ?_, hleaves⟩
    rw [Bool.toNat_false] at hvalue
    exact_mod_cast hvalue
  · obtain ⟨row, hrow, hmnemonic, hop⟩ : ∃ row ∈ rows, row.mnemonic = "SBIW" ∧
      row.operation = .subtractWord := by decide
    have hpairs : row.operation ∈ [.addWord, .subtractWord] := by rw [hop]; decide
    obtain ⟨s', hexecute, hleaves, hvalue⟩ := execute_pair hs hrow hpairs sub_splits sub_ofWord hpair
      (by simp only [Plan.ofOperation, hop]) (sub_reports hbits hword hk false)
    refine ⟨s', hmnemonic ▸ hexecute, ?_, hleaves⟩
    rw [hvalue, Bool.toNat_false, Int.natCast_zero, Int.sub_zero]

/-- Subtracting one from the least of the negative pairs, with a borrow from the high word. -/
theorem pair_arithmetic_borrow :
    let config : Config := { Config.m1047 with registers := 2, ram := 1, rom := 1, mapped := 0 }
    let c := (Chip.blank instructionSet config .w8 .halt).perform (.setRegister 1 (-128))
    (Pointer.ofIndex? 2).bind (·.pair? config.registers) = some (0, 1) ∧
      ∃ s', execute .w8 "SBIW" [2, 1] c.storage = .ok (.ok .next, s') ∧
        (pairWord .w8 s' 0 1 : Int) = 0x7FFF ∧
        LeavesPair (lowStep sub .w8 c.storage 0 1) (highStep sub .w8 c.storage 0 1 1) 0 1
          c.storage s' := by
  intro config c
  have hnew : Chip.new instructionSet config .halt =
      .ok (Chip.blank instructionSet config .w8 .halt) := rfl
  have hc : Chip.Reachable instructionSet c := .perform _ (.new hnew)
  have hpair : (Pointer.ofIndex? 2).bind (·.pair? config.registers) = some (0, 1) := rfl
  have hword : pairWord .w8 c.storage 0 1 = 0x8000 := by decide +kernel
  have hs : c.storage.Conforms config .w8 instructionSet.statusBits := hc.conforms.storage
  obtain ⟨-, s', hexecute, hvalue, hleaves⟩ := pair_arithmetic hs hpair 1
  rw [hword] at hvalue
  exact ⟨hpair, s', hexecute, hvalue, hleaves⟩

end Microcontroller.M1047
