import Microcontroller.Isa.M1047
import Microcontroller.Proofs.Bits.Value
import Microcontroller.Proofs.Chip.Reachable
/-!
# One flag, one status bit

A host names a flag, an instruction counts status bits, and the status register can be read as a number.
All three mean one bit: the layout gives each flag its own, and the register of a chip has room for it.
So a flag is set without a change to any other, an instruction that is given the bit of a flag does what
a host does by its name, and a branch on this bit asks for the flag.
-/

namespace Microcontroller

namespace Plan

variable {d : Decoded} {s : Storage} {layout : FlagLayout} {bit : Nat} {value : Bool}

/-- An instruction that writes a status bit has nothing else to check but its registers. -/
theorem of_writeStatus (hop : d.instruction.operation = if value then .setFlag else .clearFlag)
    (hbit : d.operand? .flagBit = some bit) (hlt : bit < s.status.len) :
    Plan.of d s layout = do checkRegisters d s; return write [.status bit value] := by
  have hstatus : statusBit d s = .ok bit := statusBit_ok_iff.2 ⟨hbit, hlt⟩
  cases value <;> simp only [Plan.of, ofOperation, hop, hstatus] <;> rfl

theorem of_branch (hop : d.instruction.operation = if value then .branchIfSet else .branchIfClear)
    (hbit : d.operand? .flagBit = some bit) (hlt : bit < s.status.len) :
    Plan.of d s layout = do
      checkRegisters d s
      if s.status.bit bit = value then return goTo (← relative d s) else return nothing := by
  have hstatus : statusBit d s = .ok bit := statusBit_ok_iff.2 ⟨hbit, hlt⟩
  cases value <;> simp only [Plan.of, ofOperation, hop, branch, hstatus] <;> rfl

end Plan

namespace Chip

variable {set : InstructionSet} {config : Config} {c : Chip}

/-! ### By name -/

theorem Conforms.setFlag_eq (h : c.Conforms set config) (f : Flag) (value : Bool) :
    c.setFlag f value =
      { c with storage.status := c.storage.status.put (set.flags.index f) value } := by
  rw [Chip.setFlag, BitField.set, if_pos (h.hasRoom f), h.instructions]

theorem Conforms.bit_setFlag (h : c.Conforms set config) (f : Flag) (value : Bool) (i : Nat) :
    (c.setFlag f value).storage.status.bit i =
      if i = set.flags.index f then value else c.storage.status.bit i := by
  have hunit := h.storage.status.unit_lt (set.flags.index_lt_statusBits f)
  rw [h.setFlag_eq]
  dsimp only
  rw [BitField.bit_put]
  simp only [hunit, and_true]

theorem Conforms.flag_setFlag (h : c.Conforms set config) (f g : Flag) (value : Bool) :
    (c.setFlag f value).flag g = if g = f then value else c.flag g := by
  have hsame : set.flags.index g = set.flags.index f ↔ g = f :=
    ⟨set.flags.index_injective, fun heq => heq ▸ rfl⟩
  rw [(h.setFlag f value).flag_eq, h.bit_setFlag, h.flag_eq]
  simp only [hsame]

/-! ### By an instruction -/

/-- How a cycle ends: in a fault, or after an instruction of `size` cells that has changed the chip to
`next`. -/
def finish (c : Chip) (size : Nat) : Except Fault (Flow × Chip) → Except Fault Flow × Chip
  | .error fault => (.error fault, c.stopAt fault size)
  | .ok (flow, next) => (.ok flow, next.advance flow size)

theorem cycle_eq_finish (hroom : c.HasRoom) {d : Decoded} (h : c.fetch c.storage.ip = .ok d) :
    c.cycle = c.finish d.size do
      let plan ← Plan.of d c.storage c.instructions.flags
      return (plan.flow, { c with storage := c.storage.afterPlan c.instructions.flags plan }) := by
  rw [cycle_eq hroom, h]
  dsimp only
  cases Plan.of d c.storage c.instructions.flags <;> rfl

/-- An instruction that sets or clears a status bit does what a host does to the flag that is there. -/
theorem Conforms.cycle_writeFlag (h : c.Conforms set config) {d : Decoded} {f : Flag} {value : Bool}
    (hfetch : c.fetch c.storage.ip = .ok d)
    (hop : d.instruction.operation = if value then .setFlag else .clearFlag)
    (hbit : d.operand? .flagBit = some (set.flags.index f)) :
    c.cycle = c.finish d.size do
      Plan.checkRegisters d c.storage
      return (.next, c.setFlag f value) := by
  have hlt : set.flags.index f < c.storage.status.len := h.instructions ▸ h.hasRoom f
  rw [cycle_eq_finish h.hasRoom hfetch, Plan.of_writeStatus hop hbit hlt, h.setFlag_eq]
  cases Plan.checkRegisters d c.storage <;> rfl

/-- A branch on a status bit is taken if the flag that is there has the value it waits for. -/
theorem Conforms.cycle_branch (h : c.Conforms set config) {d : Decoded} {f : Flag} {value : Bool}
    (hfetch : c.fetch c.storage.ip = .ok d)
    (hop : d.instruction.operation = if value then .branchIfSet else .branchIfClear)
    (hbit : d.operand? .flagBit = some (set.flags.index f)) :
    c.cycle = c.finish d.size do
      Plan.checkRegisters d c.storage
      if c.flag f = value then return (.jump (← Plan.relative d c.storage), c)
      else return (.next, c) := by
  have hlt : set.flags.index f < c.storage.status.len := h.instructions ▸ h.hasRoom f
  rw [cycle_eq_finish h.hasRoom hfetch, Plan.of_branch hop hbit hlt, h.flag_eq]
  cases Plan.checkRegisters d c.storage with
  | error fault => rfl
  | ok =>
    by_cases htaken : c.storage.status.bit (set.flags.index f) = value
    · simp only [htaken, if_true]
      cases Plan.relative d c.storage <;> rfl
    · simp only [htaken, if_false]
      rfl

/-! ### In the value -/

theorem Conforms.flag_eq_testBit (h : c.Conforms set config) (hbits : set.statusBits ≤ 64) (f : Flag) :
    c.flag f = c.storage.status.value.testBit (set.statusBits - 1 - set.flags.index f) := by
  have hlt : set.flags.index f < set.statusBits := set.flags.index_lt_statusBits f
  have hsize : 8 * c.storage.status.units.size = set.statusBits := by
    obtain ⟨k, hk⟩ : 8 ∣ set.statusBits := set.flags.eight_dvd_statusBits
    rw [h.storage.status.units, BitField.unitsFor, hk]
    omega
  have hvalue := c.storage.status.testBit_value (hsize ▸ hlt)
  rw [hsize, decide_eq_true (by omega), Bool.true_and] at hvalue
  rw [h.flag_eq, hvalue]

/-! ### Every layout -/

/-- Nine positions are a layout if and only if no two are the same. Then a bit belongs to one flag at
most, and the status register has the fewest whole bytes with room for all of them. On every chip with
this layout a host that sets a flag changes its bit and nothing else, an instruction that is given the
bit does the same, a branch that is given it goes by the flag, and the flag is a bit of the value of the
register where the value shows all of it. -/
theorem flags_independent (position : Flag → Byte) :
    ((∃ l, FlagLayout.ofPositions? position = some l) ↔
      ∀ f g, position f = position g → f = g) ∧
    ∀ l, FlagLayout.ofPositions? position = some l →
      (∀ f, l.index f = (position f).toNat) ∧ (∀ i f, l.flagAt? i = some f ↔ l.index f = i) ∧
      IsLeast {n | 8 ∣ n ∧ ∀ f, l.index f < n} l.statusBits ∧
      ∀ set c, set.flags = l → Reachable set c → c.storage.status.len = l.statusBits ∧ ∀ f,
        (∀ value, (∃ status, c.setFlag f value = { c with storage.status := status } ∧
            status.len = l.statusBits ∧
            ∀ i, status.bit i = if i = l.index f then value else c.storage.status.bit i) ∧
          ∀ g, (c.setFlag f value).flag g = if g = f then value else c.flag g) ∧
        (∀ d value, c.fetch c.storage.ip = .ok d → d.operand? .flagBit = some (l.index f) →
          (d.instruction.operation = (if value then .setFlag else .clearFlag) →
            c.cycle = c.finish d.size do
              Plan.checkRegisters d c.storage
              return (.next, c.setFlag f value)) ∧
          (d.instruction.operation = (if value then .branchIfSet else .branchIfClear) →
            c.cycle = c.finish d.size do
              Plan.checkRegisters d c.storage
              if c.flag f = value then return (.jump (← Plan.relative d c.storage), c)
              else return (.next, c))) ∧
        (l.statusBits ≤ 64 →
          c.flag f = c.storage.status.value.testBit (l.statusBits - 1 - l.index f)) := by
  refine ⟨FlagLayout.exists_ofPositions?_iff, fun l hl => ?_⟩
  obtain rfl := FlagLayout.ofPositions?_eq_some_iff.1 hl
  refine ⟨fun f => rfl, fun i f => FlagLayout.flagAt?_eq_some_iff, l.statusBits_isLeast, ?_⟩
  rintro set c rfl hreach
  have hc := hreach.conforms
  refine ⟨hc.storage.status.length, fun f => ⟨fun value => ⟨?_, ?_⟩, ?_, ?_⟩⟩
  · exact ⟨_, hc.setFlag_eq f value, hc.storage.status.length, fun i => by
      have hbit := hc.bit_setFlag f value i
      rwa [hc.setFlag_eq] at hbit⟩
  · exact fun g => hc.flag_setFlag f g value
  · exact fun d value hfetch hbit => ⟨fun hop => hc.cycle_writeFlag hfetch hop hbit,
      fun hop => hc.cycle_branch hfetch hop hbit⟩
  · exact fun hbits => hc.flag_eq_testBit hbits f

/-- A branch on the carry, before and after the host has set it. -/
theorem flags_independent_carry :
    let config : Config := { Config.m1047 with registers := 1, ram := 1, rom := 3, mapped := 0 }
    let c := (blank M1047.instructionSet config .w8 .halt).perform (.loadProgram 0 [0x28, 1, 5])
    Reachable M1047.instructionSet c ∧ c.cycle = (.ok .next, c.advance .next 3) ∧
      (c.setFlag .carry true).cycle = (.ok (.jump 5), (c.setFlag .carry true).advance (.jump 5) 3) ∧
      (c.setFlag .carry true).flag .zero = c.flag .zero ∧
      (c.setFlag .carry true).storage.status.value.testBit 14 = true := by
  intro config c
  have hnew : new M1047.instructionSet config .halt =
      .ok (blank M1047.instructionSet config .w8 .halt) := rfl
  have hc : Reachable M1047.instructionSet c := .perform _ (.new hnew)
  have hset : Reachable M1047.instructionSet (c.setFlag .carry true) :=
    .perform (.setFlag .carry true) hc
  obtain ⟨-, hlayout⟩ := flags_independent FlagLayout.inOrder.position
  obtain ⟨-, -, -, hchips⟩ := hlayout FlagLayout.inOrder rfl
  obtain ⟨-, hflags⟩ := hchips M1047.instructionSet c rfl hc
  obtain ⟨hsets, hexecutes, -⟩ := hflags .carry
  obtain ⟨-, hflags'⟩ := hchips M1047.instructionSet (c.setFlag .carry true) rfl hset
  obtain ⟨-, hexecutes', hvalue⟩ := hflags' .carry
  let branch : Decoded :=
    ⟨⟨"BRBS", 0x28, .branchIfSet, [.flagBit, .offset], [], none, "Branch if status bit s is set"⟩,
      [1, 5], .w8⟩
  have hclear : c.flag .carry = false := by decide +kernel
  have hcarry : (c.setFlag .carry true).flag .carry = true := (hsets true).2 .carry
  have hfetch : c.fetch c.storage.ip = .ok branch := by decide +kernel
  have hfetch' : (c.setFlag .carry true).fetch c.storage.ip = .ok branch := by decide +kernel
  have hnext := (hexecutes branch true hfetch rfl).2 rfl
  have hjump := (hexecutes' branch true hfetch' rfl).2 rfl
  have htarget : Plan.relative branch (c.setFlag .carry true).storage = .ok 5 := by decide +kernel
  rw [hclear] at hnext
  rw [hcarry, htarget] at hjump
  exact ⟨hc, hnext, hjump, (hsets true).2 .zero, (hvalue (by decide)).symm.trans hcarry⟩

end Chip

end Microcontroller
