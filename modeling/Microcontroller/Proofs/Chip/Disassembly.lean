import Microcontroller.Proofs.Chip.Assembly
import Microcontroller.Proofs.Chip.Cycle
import Microcontroller.Proofs.Isa.Listing
/-!
# What is shown is what is executed

A chip shows the instruction at an address without executing it, and a listing of program memory is made
without the chip. Neither has a reader of its own. So what is shown at an address is what a cycle from
there carries out, or the fault that it stops at before there is anything to carry out; and a listing
shows at each of its addresses what the chip shows there.
-/

namespace Microcontroller.Chip

variable {c : Chip} {address : Nat} {d : Decoded} {fault : Fault} {size : Nat}

/-! ### At an address -/

/-- An instruction is fetched exactly where its cells stand. -/
theorem fetch_ok_iff_stands :
    c.fetch address = .ok d ↔
      d.Formed c.instructions c.width ∧ Stands c.program address d.cells := by
  rw [← InstructionSet.decodeAt_ok_iff]
  constructor
  · intro h
    obtain ⟨row, hrow, hsize, rfl⟩ := fetch_ok_iff.1 h
    rw [decodeAt_of_row hrow, if_pos hsize]
  · intro h
    obtain ⟨hd, hstands⟩ := InstructionSet.decodeAt_ok h
    exact Holds.fetch hstands hd

/-- What a fetch makes of each outcome of decoding. -/
theorem fetch_of_decodeAt {content : Except DecodeError Decoded} :
    c.instructions.decodeAt c.width c.program address = content → c.fetch address = match content with
      | .ok d => .ok d
      | .error (.unknownOpcode opcode) => .error (.illegalInstruction address opcode.toNat, 1)
      | .error (.invalidCell cell) => .error (.illegalInstruction address cell, 1)
      | .error (.truncated _ needed available) => .error (.bounds address
          c.storage.memory.programRegion (address + available) c.program.size, needed) := by
  rintro rfl
  rfl

theorem disassembleAt_of_fetch_error (h : c.fetch address = .error (fault, size)) :
    c.disassembleAt address = .error (.fault fault) := by
  rw [disassembleAt, h]

/-- The chip with its instruction pointer somewhere else. -/
def pointedAt (c : Chip) (address : Nat) : Chip := { c with storage.ip := address }

theorem setInstructionPointer_of_lt (h : address < c.width.capacity) :
    c.setInstructionPointer address = c.pointedAt address := by
  rw [setInstructionPointer, Width.truncate_of_lt h]
  rfl

/-- A cycle carries out the instruction that stands at the instruction pointer. -/
theorem cycle_of_fetch (h : c.fetch c.storage.ip = .ok d) :
    c.cycle = match c.storage.execute c.instructions.flags d with
      | (.ok flow, s) => (.ok flow, { c with storage := s }.advance flow d.size)
      | (.error fault, s) => (.error fault, { c with storage := s }.stopAt fault d.size) := by
  rcases hexecute : c.storage.execute c.instructions.flags d with ⟨fault | flow, s⟩ <;>
    simp only [cycle, h, hexecute]

/-- Where no instruction stands, a cycle stops at the fault that is shown. -/
theorem cycle_of_fetch_fault (h : c.fetch c.storage.ip = .error (fault, size)) :
    c.cycle = (.error fault, c.stopAt fault c.skipSize) := by
  rw [cycle_of_fetch_error h, size_of_fetch_error h]
  rfl

/-! ### In a listing -/

/-- An entry of a listing of program memory holds what is decoded at its address. -/
theorem decodeAt_of_mem_entries {e : Listing.Entry}
    (he : e ∈ Listing.entries c.instructions c.width 0 c.program.toList) :
    c.instructions.decodeAt c.width c.program e.address = e.content ∧
      Listing.Accounts c.instructions c.width e.cells e.content ∧
      Stands c.program e.address e.cells ∧
      (Listing.Ends e.content → e.address + e.cells.length = c.program.size) := by
  obtain ⟨k, rest, haddress, hdrop, haccounts, hlast⟩ :=
    (Listing.sweeps_entries c.instructions c.width 0 c.program.toList).mem he
  rw [Nat.zero_add] at haddress
  subst k
  refine ⟨?_, haccounts, fun k x hk => ?_, fun hends => ?_⟩
  · rw [InstructionSet.decodeAt_eq_decode, hdrop, haccounts.decode_eq hlast]
  · obtain ⟨hlt, -⟩ := List.getElem?_eq_some_iff.1 hk
    rw [← Array.getElem?_toList, ← List.getElem?_drop, hdrop, List.getElem?_append_left hlt, hk]
  · have hlength := congrArg List.length hdrop
    have hpos := List.length_pos_of_ne_nil haccounts.ne_nil
    rw [List.length_drop, Array.length_toList, hlast hends, List.append_nil] at hlength
    omega

/-- What a chip shows at an address is the instruction that a cycle from there carries out, or else the
fault at which it stops because no instruction stands there. A listing of program memory shows the same
instructions; where it comes to a cell that starts none, the chip shows the illegal instruction with
this cell, and where it comes to an instruction that is cut short, that program memory has ended. -/
theorem shown_executed (c : Chip) :
    (∀ address, let there := c.pointedAt address
      (address < c.width.capacity → c.setInstructionPointer address = there) ∧
      ((∃ d, d.Formed c.instructions c.width ∧ Stands c.program address d.cells ∧
          c.disassembleAt address = .ok d.text ∧
          there.cycle = match there.storage.execute c.instructions.flags d with
            | (.ok flow, s) => (.ok flow, { there with storage := s }.advance flow d.size)
            | (.error fault, s) => (.error fault, { there with storage := s }.stopAt fault d.size)) ∨
        ((∀ d : Decoded, d.Formed c.instructions c.width → ¬ Stands c.program address d.cells) ∧
          ∃ fault, c.disassembleAt address = .error (.fault fault) ∧
            there.cycle = (.error fault, there.stopAt fault there.skipSize)))) ∧
    ∀ e ∈ Listing.entries c.instructions c.width 0 c.program.toList,
      match e.content with
      | .ok d => c.disassembleAt e.address = .ok d.text ∧
          e.text c.width = Numeral.upperHex 4 e.address ++ ":  " ++
            (Listing.padded Listing.cellColumns (Listing.cellsText c.width e.cells) ++ d.text)
      | .error (.unknownOpcode opcode) => c.program[e.address]? = some opcode.toNat ∧
          c.disassembleAt e.address =
            .error (.fault (.illegalInstruction e.address opcode.toNat))
      | .error (.invalidCell cell) => c.program[e.address]? = some cell ∧
          c.disassembleAt e.address = .error (.fault (.illegalInstruction e.address cell))
      | .error (.truncated ..) => c.disassembleAt e.address =
          .error (.fault (.bounds e.address c.storage.memory.programRegion c.program.size
            c.program.size)) := by
  refine ⟨fun address => ⟨setInstructionPointer_of_lt, ?_⟩, fun e he => ?_⟩
  · cases hfetch : c.fetch address with
    | ok d =>
      obtain ⟨hd, hstands⟩ := fetch_ok_iff_stands.1 hfetch
      exact .inl ⟨d, hd, hstands, disassembleAt_of_fetch hfetch, cycle_of_fetch hfetch⟩
    | error stop =>
      have hnone (d : Decoded) (hd : d.Formed c.instructions c.width) :
          ¬ Stands c.program address d.cells := fun hstands =>
        nomatch hfetch.symm.trans (fetch_ok_iff_stands.2 ⟨hd, hstands⟩)
      exact .inr ⟨hnone, stop.1, disassembleAt_of_fetch_error hfetch, cycle_of_fetch_fault hfetch⟩
  · obtain ⟨hdecode, haccounts, hstands, hlast⟩ := decodeAt_of_mem_entries he
    obtain ⟨address, here, content⟩ := e
    cases haccounts with
    | instruction hd => exact ⟨disassembleAt_of_fetch (fetch_ok_iff_stands.2 ⟨hd, hstands⟩), rfl⟩
    | unknown hrows =>
      exact ⟨hstands 0 _ rfl, disassembleAt_of_fetch_error (fetch_of_decodeAt hdecode)⟩
    | invalid hcell =>
      exact ⟨hstands 0 _ rfl, disassembleAt_of_fetch_error (fetch_of_decodeAt hdecode)⟩
    | @truncated row rest hrow hsize =>
      have hend : address + (rest.length + 1) = c.program.size := hlast trivial
      dsimp only at hdecode ⊢
      have hshown := disassembleAt_of_fetch_error (fetch_of_decodeAt hdecode)
      rwa [hend] at hshown

/-- Sixteen-bit words in RAM: one that is no opcode, an instruction, and an addition that is cut
short. -/
theorem shown_executed_mixed :
    let config : Config :=
      { Config.m1047 with bits := 16, registers := 1, ram := 4, rom := 0, mapped := 0 }
    let c := (blank M1047.instructionSet config .w16 .halt).perform (.loadRam 0 [0x1234, 0, 1, 0])
    Reachable M1047.instructionSet c ∧
      c.disassembleAt 0 = .error (.fault (.illegalInstruction 0 0x1234)) ∧
      c.disassembleAt 1 = .ok "nop" ∧
      c.disassembleAt 2 = .error (.fault (.bounds 2 .ram 4 4)) := by
  intro config c
  have hc : Reachable M1047.instructionSet c :=
    .perform _ (.new (show new M1047.instructionSet config .halt =
      .ok (blank M1047.instructionSet config .w16 .halt) from rfl))
  have hnop : Decoded.Formed M1047.instructionSet .w16
      ⟨M1047.instructionSet.table.rows[0], [], .w16⟩ := ⟨List.getElem_mem _, rfl, rfl⟩
  have hadd : M1047.instructionSet.table.rows[1] ∈ M1047.instructionSet.table.rows :=
    List.getElem_mem _
  have hprogram : c.program.toList = [0x1234] ++ ([0] ++ ([1, 0] ++ [])) := by rfl
  have hsweeps : Listing.Sweeps c.instructions c.width 0 c.program.toList
      [⟨0, [0x1234], .error (.invalidCell 0x1234)⟩,
        ⟨1, [0], .ok ⟨M1047.instructionSet.table.rows[0], [], .w16⟩⟩,
        ⟨2, [1, 0], .error (.truncated "ADD" 3 2)⟩] := by
    rw [hprogram]
    exact .step (.invalid (by decide)) False.elim (.step (.instruction hnop) False.elim
      (.step (.truncated hadd (by decide)) (fun _ => rfl) (.done 4)))
  have hshown := (shown_executed c).2
  rw [(Listing.sweeps_entries _ _ 0 _).unique hsweeps] at hshown
  simp only [List.forall_mem_cons] at hshown
  obtain ⟨h0, h1, h2, -⟩ := hshown
  exact ⟨hc, h0.2, h1.1, h2⟩

end Microcontroller.Chip
