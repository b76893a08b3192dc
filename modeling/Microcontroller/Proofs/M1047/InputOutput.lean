import Mathlib.Data.Set.Function
import Microcontroller.Proofs.Chip.Reading
import Microcontroller.Proofs.M1047.Mnemonic
import Microcontroller.Proofs.M1047.Transfer
/-!
# Input and output

`IN` and `OUT` reach what the chip has, each target at an address of its own, and at all other addresses
they fault. What is sent to a target is read there afterwards and nowhere else; a port keeps the low byte
of it, without the pins that the chip lacks. The pins of a port are the bits of its byte, the first pin
on top, also for the instructions that set and clear single pins.
-/

namespace Microcontroller.M1047

open AddressMap (Target resolve)

/-- The byte of a port with these pins. -/
def portByte (pin : Nat → Bool) : Nat :=
  ((List.range 8).map fun j => (pin j).toNat * 2 ^ (7 - j)).sum

/-- What a target takes of a word that is sent to it. -/
def taken (config : Config) : Target → Nat → Nat
  | .digital group, v =>
    portByte fun j => v.testBit (7 - j) && decide (8 * group + j < config.digital)
  | _, v => v

/-- `IN` from this address leaves this word in its register, whichever register that is. -/
def Reads (config : Config) (w : Width) (s : Storage) (address word : Nat) : Prop :=
  ∀ r < config.registers, ∃ s', execute w "IN" [r, address] s = .ok (.ok .next, s') ∧
    s'.valueAt (.register r) = word

/-- In `s'` one target reads this word, and all others read what they read in `s`. -/
structure Turns (config : Config) (w : Width) (t : Target) (word : Nat) (s s' : Storage) : Prop where
  target : Reads config w s' t.address word
  others : ∀ t', config.HasTarget t' → t' ≠ t → ∀ x,
    Reads config w s' t'.address x ↔ Reads config w s t'.address x

variable {config : Config} {w : Width} {s s' : Storage} {t : Target}

/-! ### Reading -/

theorem exists_input_row : ∃ row ∈ rows, row.mnemonic = "IN" ∧ row.operation = .input ∧
    row.operands = [.destination, .ioAddress] := by decide

theorem exists_output_row : ∃ row ∈ rows, row.mnemonic = "OUT" ∧ row.operation = .output ∧
    row.operands = [.ioAddress, .source] := by decide

theorem exists_pin_row : ∀ value : Bool, ∃ row ∈ rows,
    row.mnemonic = (if value then "SBI" else "CBI") ∧
    row.operation = (if value then .setPin else .clearPin) ∧ row.operands = [.bit] := by decide

section

variable (hs : s.Conforms config w instructionSet.statusBits)

include hs

theorem execute_input {a r : Nat} (ha : s.io.Answers a) (hr : r < config.registers) :
    execute w "IN" [r, a] s =
      .ok (.ok .next, s.apply (.register r (s.reading (resolve a)))) := by
  obtain ⟨row, hrow, hmnemonic, hop, hoperands⟩ := exists_input_row
  have hsize : r < s.registers.size := Nat.lt_of_lt_of_eq hr hs.registers.size.symm
  have hchecked : Plan.checkRegisters ⟨row, [r, a], w⟩ s = .ok () :=
    checkRegisters_written hoperands (by simp [hsize, OperandKind.isRegister]) (by simp)
  have hplan : Plan.ofOperation ⟨row, [r, a], w⟩ s instructionSet.flags =
      .ok (.write [.register r (s.reading (resolve a))]) := by
    simp only [Plan.ofOperation, hop]
    refine bind_ok_iff.2 ⟨a, Plan.cell_ok_iff.2 (operand?_written hoperands .ioAddress), ?_⟩
    refine bind_ok_iff.2 ⟨_, Storage.input_eq_reading ha, ?_⟩
    refine bind_ok_iff.2 ⟨r, Plan.registerIndex_ok_iff.2 ⟨?_, hsize⟩, rfl⟩
    exact operand?_written hoperands .destination
  rw [← hmnemonic]
  exact execute_of_plan hs hrow hchecked hplan

theorem reads_answer {a : Nat} (ha : s.io.Answers a) :
    Reads config w s a (s.reading (resolve a)) := by
  intro r hr
  refine ⟨_, execute_input hs ha hr, ?_⟩
  have hsize : r < s.registers.raw.size := hs.registers.size.symm ▸ hr
  have hlt := Storage.reading_lt hs (resolve a)
  exact (Cells.getD_put_self hsize _).trans (hs.registers.width ▸ Width.truncate_of_lt hlt)

/-- What `IN` reads at a target that exists. -/
theorem reads_iff (hvalid : config.Valid) (ht : config.HasTarget t) (x : Nat) :
    Reads config w s t.address x ↔ x = s.reading t := by
  have hresolve := AddressMap.resolve_address (hvalid.hasRoom ht)
  have hanswers : s.io.Answers t.address := by
    rw [Storage.answers_iff_hasTarget hs, hresolve]
    exact ht
  have hreads := reads_answer hs hanswers
  rw [hresolve] at hreads
  constructor
  · intro hx
    obtain ⟨s', hs', hx⟩ := hx 0 hvalid.registers_pos
    obtain ⟨s'', hs'', hx'⟩ := hreads 0 hvalid.registers_pos
    cases hs'.symm.trans hs''
    exact hx.symm.trans hx'
  · intro hx
    rw [hx]
    exact hreads

theorem execute_input_fault {a : Nat} (ha : ¬s.io.Answers a) (r : Nat) :
    ∃ fault, execute w "IN" [r, a] s = .ok (.error fault, s) := by
  obtain ⟨row, hrow, hmnemonic, hop, hoperands⟩ := exists_input_row
  rw [← hmnemonic]
  refine execute_of_not_planned hs hrow fun plan hplan => ?_
  simp only [Plan.ofOperation, hop] at hplan
  obtain ⟨a', hcell, hplan⟩ := bind_ok_iff.1 hplan
  obtain ⟨word, hword, -⟩ := bind_ok_iff.1 hplan
  cases (operand?_written hoperands .ioAddress).symm.trans (Plan.cell_ok_iff.1 hcell)
  exact ha (Plan.exists_input_iff.1 ⟨word, hword⟩)

/-! ### Writing -/

theorem execute_output {a r : Nat} (ha : s.io.Answers a) (hr : r < config.registers) {write : Write}
    (hsend : (resolve a).send w (s.valueAt (.register r)) = some write) :
    execute w "OUT" [a, r] s = .ok (.ok .next, s.apply write) := by
  obtain ⟨row, hrow, hmnemonic, hop, hoperands⟩ := exists_output_row
  have hsize : r < s.registers.size := Nat.lt_of_lt_of_eq hr hs.registers.size.symm
  have hchecked : Plan.checkRegisters ⟨row, [a, r], w⟩ s = .ok () :=
    checkRegisters_written hoperands (by simp [hsize, OperandKind.isRegister]) (by simp)
  have hplan : Plan.ofOperation ⟨row, [a, r], w⟩ s instructionSet.flags = .ok (.write [write]) := by
    simp only [Plan.ofOperation, hop]
    refine bind_ok_iff.2 ⟨a, Plan.cell_ok_iff.2 (operand?_written hoperands .ioAddress), ?_⟩
    refine bind_ok_iff.2 ⟨s.valueAt (.register r), ?_, ?_⟩
    · exact Plan.register_ok_iff.2 ⟨r, ⟨operand?_written hoperands .source, hsize⟩, rfl⟩
    · exact bind_ok_iff.2 ⟨write, Storage.output_ok_iff.2 ⟨ha, hsend⟩, rfl⟩
  rw [← hmnemonic]
  exact execute_of_plan hs hrow hchecked hplan

theorem execute_output_fault {a : Nat} (ha : ¬s.io.Answers a) (r : Nat) :
    ∃ fault, execute w "OUT" [a, r] s = .ok (.error fault, s) := by
  obtain ⟨row, hrow, hmnemonic, hop, hoperands⟩ := exists_output_row
  rw [← hmnemonic]
  refine execute_of_not_planned hs hrow fun plan hplan => ?_
  simp only [Plan.ofOperation, hop] at hplan
  obtain ⟨a', hcell, hplan⟩ := bind_ok_iff.1 hplan
  obtain ⟨word, -, hplan⟩ := bind_ok_iff.1 hplan
  obtain ⟨write, hwrite, -⟩ := bind_ok_iff.1 hplan
  cases (operand?_written hoperands .ioAddress).symm.trans (Plan.cell_ok_iff.1 hcell)
  exact ha (Storage.output_ok_iff.1 hwrite).1

/-- Setting or clearing a pin that exists. -/
theorem execute_pin {pin : Nat} (hpin : pin < config.digital) (value : Bool) :
    execute w (if value then "SBI" else "CBI") [pin] s =
      .ok (.ok .next, s.apply (.pin pin value)) := by
  obtain ⟨row, hrow, hmnemonic, hop, hoperands⟩ := exists_pin_row value
  have hlen : pin < s.io.digital.len := Nat.lt_of_lt_of_eq hpin hs.io.digital.length.symm
  have hchecked : Plan.checkRegisters ⟨row, [pin], w⟩ s = .ok () :=
    checkRegisters_written hoperands (by simp [OperandKind.isRegister]) (by simp)
  have hplan : Plan.ofOperation ⟨row, [pin], w⟩ s instructionSet.flags =
      .ok (.write [.pin pin value]) := by
    have hpinned : Plan.pin ⟨row, [pin], w⟩ s value = .ok (.write [.pin pin value]) :=
      Plan.pin_ok_iff.2 ⟨pin, ⟨operand?_written hoperands .bit, hlen⟩, rfl⟩
    cases value <;> simp only [Plan.ofOperation, hop] <;> exact hpinned
  rw [← hmnemonic]
  exact execute_of_plan hs hrow hchecked hplan

/-- A change of one reading is seen at that target only. -/
theorem turns_of_reading (hvalid : config.Valid) (hs' : s'.Conforms config w instructionSet.statusBits)
    (ht : config.HasTarget t) {x : Nat} (htarget : s'.reading t = x)
    (hothers : ∀ t' ≠ t, s'.reading t' = s.reading t') : Turns config w t x s s' where
  target := (reads_iff hs' hvalid ht x).2 htarget.symm
  others := by
    intro t' ht' hne y
    rw [reads_iff hs' hvalid ht', reads_iff hs hvalid ht', hothers t' hne]

/-- A write that sends a word to a target turns the target to what it takes of the word. -/
theorem turns_of_send (hvalid : config.Valid) (ht : config.HasTarget t) {v : Nat}
    (hv : v < w.capacity) {write : Write} (hsend : t.send w v = some write) :
    Turns config w t (taken config t v) s (s.apply write) := by
  have hs' := hs.apply (Storage.fits_of_send ht hsend)
  refine turns_of_reading hs hvalid hs' ht ?_ fun t' hne => Storage.reading_send_of_ne hne hsend
  cases t with
  | digital group =>
    cases hsend
    show ((s.apply _).port group).toNat = _
    rw [toNat_eq_sum, taken, portByte]
    congr 1
    refine List.map_congr_left fun j hj => ?_
    rw [Storage.getMsbD_port_send hs ht (List.mem_range.1 hj)]
  | _ => exact Storage.reading_send hs ht nofun hv hsend

/-- Putting a pin turns its port to the byte with its bit replaced. -/
theorem turns_of_pin (hvalid : config.Valid) {p i : Nat} (hi : i < 8)
    (hpin : 8 * p + i < config.digital) (value : Bool) :
    Turns config w (.digital p) (replaceBit (s.reading (.digital p)) (7 - i) value) s
      (s.apply (.pin (8 * p + i) value)) := by
  have hp : (8 * p + i) / 8 = p := by omega
  have hport : config.HasTarget (.digital p) := by
    show p < (config.digital + 7) / 8
    omega
  have hfits : (Write.pin (8 * p + i) value).Fits config w instructionSet.statusBits := hpin
  refine turns_of_reading hs hvalid (hs.apply hfits) hport ?_ fun t' hne => ?_
  · refine Nat.eq_of_testBit_eq fun k => ?_
    rw [testBit_replaceBit]
    show ((s.apply _).port p).toNat.testBit k = if k = 7 - i then value else (s.port p).toNat.testBit k
    rw [BitVec.testBit_toNat, BitVec.testBit_toNat, BitVec.getLsbD_eq_getMsbD,
      BitVec.getLsbD_eq_getMsbD]
    by_cases hk : k < 8
    · have hj : 8 - 1 - k < 8 := by omega
      have hindex : 8 * p + (8 - 1 - k) = 8 * p + i ↔ k = 7 - i := by omega
      simp only [hk, decide_true, Bool.true_and, Storage.getMsbD_port_pin hs hpin value p hj, hindex]
    · have hne : k ≠ 7 - i := by omega
      simp only [hk, decide_false, Bool.false_and, if_neg hne]
  · rw [← hp] at hne
    exact Storage.reading_pin_of_ne hne

/-- A pin is the bit at its place in the byte of its port. -/
theorem pin_eq_testBit {p i : Nat} (hi : i < 8) (hpin : 8 * p + i < config.digital) :
    s.io.pin (8 * p + i) = .ok ((s.reading (.digital p)).testBit (7 - i)) := by
  have hlen : 8 * p + i < s.io.digital.len := Nat.lt_of_lt_of_eq hpin hs.io.digital.length.symm
  have hbit : (s.port p).getMsbD i = (s.port p).toNat.testBit (7 - i) := by
    rw [BitVec.testBit_toNat, BitVec.getMsbD_eq_getLsbD, decide_eq_true hi, Bool.true_and]
  rw [IoBanks.pin, BitField.get, if_pos hlen, ← Storage.getMsbD_port s p hi, hbit]
  rfl

end

/-! ### The map -/

/-- The I/O addresses of a valid configuration. What exists has an address of its own, a word, that
resolves to it, and at any other address `IN` and `OUT` fault and change nothing. What is sent to a
target is what it takes, and is read there only. Pins are the bits of their ports, read, set or
cleared. -/
theorem io_map (hvalid : config.validate = .ok ()) (hw : config.width? = some w) :
    (∀ t, config.HasTarget t → t.address < 2 ^ config.bits ∧ resolve t.address = t) ∧
    Set.InjOn Target.address {t | config.HasTarget t} ∧
    ∀ s, s.Conforms config w instructionSet.statusBits →
      (∀ t, config.HasTarget t → ∃! x, Reads config w s t.address x) ∧
      (∀ a, (∀ t, config.HasTarget t → t.address ≠ a) → ∀ r,
        (∃ fault, execute w "IN" [r, a] s = .ok (.error fault, s)) ∧
        ∃ fault, execute w "OUT" [a, r] s = .ok (.error fault, s)) ∧
      (∀ t, config.HasTarget t → ∀ r < config.registers,
        ∃ s', execute w "OUT" [t.address, r] s = .ok (.ok .next, s') ∧
          Turns config w t (taken config t (s.valueAt (.register r))) s s') ∧
      ∀ p, ∀ i < 8, 8 * p + i < config.digital →
        ∃ x, Reads config w s p x ∧ s.io.pin (8 * p + i) = .ok (x.testBit (7 - i)) ∧
          (∃ s', execute w "SBI" [8 * p + i] s = .ok (.ok .next, s') ∧
            Turns config w (.digital p) (replaceBit x (7 - i) true) s s') ∧
          ∃ s', execute w "CBI" [8 * p + i] s = .ok (.ok .next, s') ∧
            Turns config w (.digital p) (replaceBit x (7 - i) false) s s' := by
  have hconfig := Config.validate_ok_iff.1 hvalid
  have hresolve {t : Target} (ht : config.HasTarget t) : resolve t.address = t :=
    AddressMap.resolve_address (hconfig.hasRoom ht)
  refine ⟨fun t ht => ⟨hconfig.address_lt hw ht, hresolve ht⟩, ?_, fun s hs => ⟨?_, ?_, ?_, ?_⟩⟩
  · intro t ht t' ht' heq
    rw [← hresolve ht, heq, hresolve ht']
  · intro t ht
    refine ⟨s.reading t, (reads_iff hs hconfig ht _).2 rfl, fun x hx => ?_⟩
    exact (reads_iff hs hconfig ht x).1 hx
  · intro a ha r
    have hanswers : ¬s.io.Answers a := by
      rw [Storage.answers_iff_hasTarget hs]
      intro ht
      have hne : resolve a ≠ .reserved := fun heq => by rw [heq] at ht; exact ht
      exact ha _ ht (AddressMap.address_resolve hne)
    exact ⟨execute_input_fault hs hanswers r, execute_output_fault hs hanswers r⟩
  · intro t ht r hr
    have hanswers : s.io.Answers t.address := by
      rw [Storage.answers_iff_hasTarget hs, hresolve ht]
      exact ht
    obtain ⟨write, hwrite⟩ := Storage.exists_send ht w (s.valueAt (.register r))
    have hexecute := execute_output hs hanswers hr ((hresolve ht).symm ▸ hwrite)
    exact ⟨_, hexecute, turns_of_send hs hconfig ht (hs.registers.getD_lt r) hwrite⟩
  · intro p i hi hpin
    have hport : config.HasTarget (.digital p) := by
      show p < (config.digital + 7) / 8
      omega
    exact ⟨s.reading (.digital p), (reads_iff hs hconfig hport _).2 rfl, pin_eq_testBit hs hi hpin,
      ⟨_, execute_pin hs hpin true, turns_of_pin hs hconfig hi hpin true⟩,
      ⟨_, execute_pin hs hpin false, turns_of_pin hs hconfig hi hpin false⟩⟩

/-- All bits sent to a port with four pins, on a chip with mapped channels up to the last address. -/
theorem io_map_partial :
    let config : Config := { Config.m1047 with mapped := 224 }
    let c := (Chip.blank instructionSet config .w8 .halt).perform (.setRegister 0 (-1))
    config.validate = .ok () ∧ config.width? = some .w8 ∧
      (Target.mapped 223).address = 0xFF ∧ resolve (Target.mapped 223).address = .mapped 223 ∧
      ∃ s', execute .w8 "OUT" [0, 0] c.storage = .ok (.ok .next, s') ∧
        Turns config .w8 (.digital 0) 0xF0 c.storage s' := by
  intro config c
  have hvalid : config.validate = .ok () := rfl
  have hnew : Chip.new instructionSet config .halt =
      .ok (Chip.blank instructionSet config .w8 .halt) := rfl
  have hc : Chip.Reachable instructionSet c := .perform _ (.new hnew)
  have hs : c.storage.Conforms config .w8 instructionSet.statusBits := hc.conforms.storage
  have hword : taken config (.digital 0) (c.storage.valueAt (.register 0)) = 0xF0 := by decide +kernel
  have hport : config.HasTarget (.digital 0) := by
    show 0 < (4 + 7) / 8
    decide
  have hmapped : config.HasTarget (.mapped 223) := by
    show 223 < 224
    decide
  obtain ⟨haddress, -, hmap⟩ := io_map hvalid (rfl : config.width? = some .w8)
  obtain ⟨-, -, hout, -⟩ := hmap c.storage hs
  obtain ⟨s', hexecute, hturns⟩ := hout _ hport 0 (by decide)
  rw [hword] at hturns
  exact ⟨hvalid, rfl, rfl, (haddress _ hmapped).2, s', hexecute, hturns⟩

end Microcontroller.M1047
