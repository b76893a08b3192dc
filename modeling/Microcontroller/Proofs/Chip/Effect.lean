import Microcontroller.Proofs.Chip.Arithmetic
import Microcontroller.Proofs.Chip.Layout
import Microcontroller.Proofs.Chip.Plan
import Microcontroller.Proofs.Isa.Layout
/-!
# The effect of an arithmetic instruction

The plan of an arithmetic instruction writes one register at most, and then sets flags. Setting flags
touches the status register only, and there only the bits of those flags. Each flag has a bit of its
own, so it ends with the value that it was set to.
-/

namespace Microcontroller

variable {d : Decoded} {s : Storage} {layout : FlagLayout} {plan : Plan}

/-! ### Setting flags -/

namespace Storage

theorem foldl_putFlag (flags : List (Flag × Bool)) (s : Storage) :
    flags.foldl (putFlag layout) s =
      { s with status := flags.foldl (fun status f => status.put (layout.index f.1) f.2) s.status }
    := by
  induction flags generalizing s with
  | nil => rfl
  | cons f rest ih =>
    rw [List.foldl_cons, ih]
    rfl

theorem bit_foldl_putFlag_of_ne {flags : List (Flag × Bool)} {i : Nat}
    (h : ∀ f ∈ flags, layout.index f.1 ≠ i) :
    (flags.foldl (putFlag layout) s).status.bit i = s.status.bit i := by
  induction flags generalizing s with
  | nil => rfl
  | cons f rest ih =>
    obtain ⟨hf, hrest⟩ := List.forall_mem_cons.1 h
    rw [List.foldl_cons, ih hrest]
    simp only [putFlag, BitField.bit_put]
    rw [if_neg fun heq => hf heq.1.symm]

/-- A flag that is set, and not to two values, has the value that it was set to. -/
theorem bit_foldl_putFlag_of_mem {flags : List (Flag × Bool)} {f : Flag} {v : Bool}
    (hroom : layout.index f / 8 < s.status.units.size) (hmem : (f, v) ∈ flags)
    (hunique : ∀ w, (f, w) ∈ flags → w = v) :
    (flags.foldl (putFlag layout) s).status.bit (layout.index f) = v := by
  induction flags generalizing s with
  | nil => cases hmem
  | cons g rest ih =>
    rw [List.foldl_cons]
    -- The last value that is put decides. If it is not in `rest`, nothing in `rest` is put at the place
    -- of `f` any more, because that place is no other flag's.
    by_cases hrest : (f, v) ∈ rest
    · refine ih ?_ hrest fun w hw => hunique w (List.mem_cons_of_mem _ hw)
      simpa only [putFlag, BitField.put, Array.size_modify] using hroom
    · have hhead : (f, v) = g := (List.mem_cons.1 hmem).resolve_right hrest
      have hother : ∀ g ∈ rest, layout.index g.1 ≠ layout.index f := by
        intro g' hg' heq
        obtain rfl := layout.index_injective heq
        exact hrest (hunique g'.2 (List.mem_cons_of_mem _ hg') ▸ hg')
      rw [bit_foldl_putFlag_of_ne hother, ← hhead]
      simp only [putFlag, BitField.bit_put]
      exact if_pos ⟨trivial, hroom⟩

end Storage

/-! ### The plan of an arithmetic instruction -/

namespace Plan

theorem mem_declared_iff {o : Alu.Outcome} {f : Flag} {v : Bool} :
    (f, v) ∈ declared d o ↔ f ∈ d.instruction.flags ∧ o.flag? f = some v := by
  simp only [declared, List.mem_filterMap, Option.map_eq_some_iff, Prod.mk.injEq]
  constructor
  · intro ⟨g, hg, w, hw, hgf, hwv⟩
    subst hgf hwv
    exact ⟨hg, hw⟩
  · intro ⟨hf, hv⟩
    exact ⟨f, hf, v, hv, rfl, rfl⟩

/-- The plan of an arithmetic instruction with this outcome on register `rd`; a comparison keeps the
register. -/
def computing (d : Decoded) (rd : Nat) (o : Alu.Outcome) : Plan :=
  ⟨if d.instruction.operation = .compare then [] else [.register rd o.value], declared d o, .next⟩

theorem computing_of_ne {o : Alu.Outcome} {rd : Nat} (h : d.instruction.operation ≠ .compare) :
    computing d rd o = ⟨[.register rd o.value], declared d o, .next⟩ := by
  rw [computing, if_neg h]

section

variable {rd b : Nat} {m : Meaning} (hrd : d.operand? .destination = some rd)

include hrd

theorem unary_computing {f : Nat → Alu.Outcome} (hop : d.instruction.operation ≠ .compare)
    (h : unary d s f = .ok plan) : plan = computing d rd (f (registerWord s rd)) := by
  obtain ⟨i, hi, rfl⟩ := unary_ok_iff.1 h
  obtain ⟨hi, -⟩ := registerIndex_ok_iff.1 hi
  cases hrd.symm.trans hi
  exact (computing_of_ne hop).symm

variable (hsecond : ∀ r, second d s = .ok r → r = b)

include hsecond

theorem binary_computing {f : Nat → Nat → Alu.Outcome} (hop : d.instruction.operation ≠ .compare)
    (h : binary d s f = .ok plan) : plan = computing d rd (f (registerWord s rd) b) := by
  obtain ⟨i, hi, r, hr, rfl⟩ := binary_ok_iff.1 h
  obtain ⟨hi, -⟩ := registerIndex_ok_iff.1 hi
  cases hrd.symm.trans hi
  rw [hsecond r hr, computing_of_ne hop]

theorem comparison_computing {f : Nat → Nat → Alu.Outcome}
    (hop : d.instruction.operation = .compare) (h : comparison d s f = .ok plan) :
    plan = computing d rd (f (registerWord s rd) b) := by
  obtain ⟨_, ha, r, hr, rfl⟩ := comparison_ok_iff.1 h
  obtain ⟨i, ⟨hi, -⟩, rfl⟩ := register_ok_iff.1 ha
  cases hrd.symm.trans hi
  rw [hsecond r hr, computing, if_pos hop]

/-- The outcome of an arithmetic instruction agrees with what the operation means. -/
theorem ofOperation_computing (ha : registerWord s rd < 2 ^ d.width.bits)
    (hb : b < 2 ^ d.width.bits)
    (hm : d.instruction.operation.meaning? d.width.bits (registerWord s rd) b
      (s.flag layout .carry).toNat = some m)
    (h : ofOperation d s layout = .ok plan) :
    ∃ o, Alu.Agrees d.width.bits d.instruction.operation.sets o m ∧ plan = computing d rd o := by
  have hbits := d.width.bits_pos
  have hzero : 0 < 2 ^ d.width.bits := Nat.two_pow_pos _
  have hone : 1 < 2 ^ d.width.bits := Nat.one_lt_two_pow (Nat.ne_of_gt hbits)
  have hbinary {f : Nat → Nat → Alu.Outcome} (hop : d.instruction.operation ≠ .compare)
      (h : binary d s f = .ok plan) : plan = computing d rd (f (registerWord s rd) b) :=
    binary_computing hrd hsecond hop h
  have hunary {f : Nat → Alu.Outcome} (hop : d.instruction.operation ≠ .compare)
      (h : unary d s f = .ok plan) : plan = computing d rd (f (registerWord s rd)) :=
    unary_computing hrd hop h
  cases hop : d.instruction.operation <;>
    simp only [hop, Operation.meaning?, reduceCtorEq, Option.some.injEq] at hm <;>
    simp only [ofOperation, hop] at h <;>
    subst hm
  case add => exact ⟨_, Alu.add_agrees hbits ha hb false, hbinary (hop.trans_ne nofun) h⟩
  case addWithCarry => exact ⟨_, Alu.add_agrees hbits ha hb _, hbinary (hop.trans_ne nofun) h⟩
  case subtract => exact ⟨_, Alu.sub_agrees hbits ha hb false, hbinary (hop.trans_ne nofun) h⟩
  case subtractWithCarry => exact ⟨_, Alu.sub_agrees hbits ha hb _, hbinary (hop.trans_ne nofun) h⟩
  case compare => exact ⟨_, Alu.sub_agrees hbits ha hb false, comparison_computing hrd hsecond hop h⟩
  case increment => exact ⟨_, Alu.add_agrees hbits ha hone false, hunary (hop.trans_ne nofun) h⟩
  case decrement => exact ⟨_, Alu.sub_agrees hbits ha hone false, hunary (hop.trans_ne nofun) h⟩
  case negate => exact ⟨_, Alu.sub_agrees hbits hzero ha false, hunary (hop.trans_ne nofun) h⟩
  case and =>
    exact ⟨_, Alu.logic_agrees hbits (Nat.and_lt_two_pow _ hb), hbinary (hop.trans_ne nofun) h⟩
  case or =>
    exact ⟨_, Alu.logic_agrees hbits (Nat.or_lt_two_pow ha hb), hbinary (hop.trans_ne nofun) h⟩
  case xor =>
    exact ⟨_, Alu.logic_agrees hbits (Nat.xor_lt_two_pow ha hb), hbinary (hop.trans_ne nofun) h⟩
  case complement => exact ⟨_, Alu.complement_agrees hbits ha, hunary (hop.trans_ne nofun) h⟩
  case shiftLeft => exact ⟨_, Alu.shiftLeft_agrees hbits ha, hunary (hop.trans_ne nofun) h⟩
  case shiftRight => exact ⟨_, Alu.shiftRight_agrees hbits ha, hunary (hop.trans_ne nofun) h⟩
  case arithmeticShiftRight =>
    exact ⟨_, Alu.arithmeticShiftRight_agrees hbits ha, hunary (hop.trans_ne nofun) h⟩
  case rotateRight => exact ⟨_, Alu.rotateRight_agrees hbits ha _, hunary (hop.trans_ne nofun) h⟩

end

end Plan

/-! ### Carrying it out -/

namespace Storage

theorem afterPlan_computing (rd : Nat) (o : Alu.Outcome) :
    s.afterPlan layout (Plan.computing d rd o) = (Plan.declared d o).foldl (putFlag layout)
      { s with registers :=
          if d.instruction.operation = .compare then s.registers else s.registers.put rd o.value }
    := by
  rw [afterPlan, Plan.computing]
  by_cases hop : d.instruction.operation = .compare
  · rw [if_pos hop, if_pos hop]
    rfl
  · rw [if_neg hop, if_neg hop]
    rfl

theorem afterPlan_computing_frame (layout : FlagLayout) (d : Decoded) (s : Storage) (rd : Nat)
    (o : Alu.Outcome) :
    (s.afterPlan layout (Plan.computing d rd o)).memory = s.memory ∧
      (s.afterPlan layout (Plan.computing d rd o)).io = s.io ∧
      (s.afterPlan layout (Plan.computing d rd o)).sp = s.sp := by
  rw [afterPlan_computing, foldl_putFlag]
  exact ⟨rfl, rfl, rfl⟩

theorem registers_afterPlan_computing (rd : Nat) (o : Alu.Outcome) :
    (s.afterPlan layout (Plan.computing d rd o)).registers =
      if d.instruction.operation = .compare then s.registers else s.registers.put rd o.value := by
  rw [afterPlan_computing, foldl_putFlag]

theorem word_afterPlan_computing {rd : Nat} {o : Alu.Outcome} (hrd : rd < s.registers.raw.size)
    (hlt : o.value < s.registers.width.capacity) :
    (s.afterPlan layout (Plan.computing d rd o)).registers.raw.getD rd 0 =
      if d.instruction.operation = .compare then s.registers.raw.getD rd 0 else o.value := by
  rw [registers_afterPlan_computing]
  by_cases hop : d.instruction.operation = .compare
  · rw [if_pos hop, if_pos hop]
  · rw [if_neg hop, if_neg hop, Cells.getD_put_self hrd, Width.truncate_of_lt hlt]

theorem word_afterPlan_computing_of_ne {rd i : Nat} {o : Alu.Outcome} (hi : i ≠ rd) :
    (s.afterPlan layout (Plan.computing d rd o)).registers.raw.getD i 0 =
      s.registers.raw.getD i 0 := by
  rw [registers_afterPlan_computing]
  by_cases hop : d.instruction.operation = .compare
  · rw [if_pos hop]
  · rw [if_neg hop, Cells.getD_put_of_ne _ hi]

theorem bit_afterPlan_computing {rd : Nat} {o : Alu.Outcome} {f : Flag} {v : Bool}
    (hroom : layout.index f / 8 < s.status.units.size) (hf : f ∈ d.instruction.flags)
    (hv : o.flag? f = some v) :
    (s.afterPlan layout (Plan.computing d rd o)).status.bit (layout.index f) = v := by
  rw [afterPlan_computing]
  refine bit_foldl_putFlag_of_mem hroom (Plan.mem_declared_iff.2 ⟨hf, hv⟩) ?_
  intro w hw
  obtain ⟨-, hw⟩ := Plan.mem_declared_iff.1 hw
  exact Option.some.inj (hw.symm.trans hv)

theorem bit_afterPlan_computing_of_ne {rd i : Nat} {o : Alu.Outcome}
    (h : ∀ f ∈ d.instruction.flags, layout.index f ≠ i) :
    (s.afterPlan layout (Plan.computing d rd o)).status.bit i = s.status.bit i := by
  rw [afterPlan_computing]
  refine bit_foldl_putFlag_of_ne ?_
  intro f hf
  obtain ⟨f, v⟩ := f
  exact h f (Plan.mem_declared_iff.1 hf).1

end Storage

end Microcontroller
