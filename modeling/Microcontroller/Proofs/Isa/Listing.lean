import Mathlib.Algebra.Ring.Nat
import Microcontroller.Proofs.Isa.RoundTrip
/-!
# What a listing lists

A listing takes a program apart into stretches of cells, each of which is an instruction, a cell that
starts none, or the beginning of an instruction that the program is too short for. `Accounts` says which
stretch can be taken for what, and `Sweeps` that a list of entries goes through a program stretch by
stretch and leaves nothing out. Cells leave no choice between the four, so a program can be swept in one
way only. The entries of a listing are that way, and for a program made of instructions it is the way in
which it was put together.
-/

namespace Microcontroller

namespace Listing

/-- What these cells are taken for, when a listing comes to them. -/
inductive Accounts (set : InstructionSet) (w : Width) :
    List Nat → Except DecodeError Decoded → Prop where
  | instruction {d : Decoded} (h : d.Formed set w) : Accounts set w d.cells (.ok d)
  | unknown {opcode : Byte} (h : ∀ row ∈ set.table.rows, row.opcode ≠ opcode) :
      Accounts set w [opcode.toNat] (.error (.unknownOpcode opcode))
  | invalid {cell : Nat} (h : 256 ≤ cell) : Accounts set w [cell] (.error (.invalidCell cell))
  | truncated {row : Instruction} {rest : List Nat} (hrow : row ∈ set.table.rows)
      (h : rest.length + 1 < row.size) :
      Accounts set w (row.opcode.toNat :: rest)
        (.error (.truncated row.mnemonic row.size (rest.length + 1)))

/-- Nothing can be read after this. -/
def Ends : Except DecodeError Decoded → Prop
  | .error (.truncated ..) => True
  | .error (.unknownOpcode _) | .error (.invalidCell _) | .ok _ => False

/-- The entries go through these cells from the address on, without a gap. -/
inductive Sweeps (set : InstructionSet) (w : Width) : Nat → List Nat → List Entry → Prop where
  | done (address : Nat) : Sweeps set w address [] []
  | step {address : Nat} {cells rest : List Nat} {content : Except DecodeError Decoded}
      {entries : List Entry} (h : Accounts set w cells content) (hlast : Ends content → rest = [])
      (hrest : Sweeps set w (address + cells.length) rest entries) :
      Sweeps set w address (cells ++ rest) (⟨address, cells, content⟩ :: entries)

variable {set : InstructionSet} {w : Width} {program : Array Nat} {origin offset address : Nat}
  {cells cells' rest rest' : List Nat} {content content' : Except DecodeError Decoded}
  {entries entries' before after : List Entry} {e : Entry}

/-! ### One way to take cells -/

theorem Accounts.ne_nil (h : Accounts set w cells content) : cells ≠ [] := by
  cases h <;> exact List.cons_ne_nil _ _

/-- What cells are taken for is what is decoded from them, whatever follows. -/
theorem Accounts.decode_eq (h : Accounts set w cells content) (hlast : Ends content → rest = []) :
    set.decode w (cells ++ rest) = content := by
  cases h with
  | instruction hd => exact InstructionSet.decode_ok_iff.2 ⟨hd, List.prefix_append _ _⟩
  | @unknown opcode hrows =>
    have hnone : set.table.decode? opcode = none :=
      List.find?_eq_none.2 fun row hrow heq => hrows row hrow (beq_iff_eq.1 heq)
    rw [List.singleton_append, InstructionSet.decode_cons, if_pos opcode.isLt, BitVec.ofNat_toNat,
      BitVec.setWidth_eq, hnone]
  | invalid hcell =>
    rw [List.singleton_append, InstructionSet.decode_cons, if_neg (Nat.not_lt.2 hcell)]
  | @truncated row operands hrow hsize =>
    obtain rfl := hlast trivial
    have hsome : set.table.decode? row.opcode = some row :=
      InstructionTable.decode?_eq_some_iff.2 ⟨hrow, rfl⟩
    have hshort : ¬ row.operands.length ≤ operands.length := by
      rw [Instruction.size] at hsize
      omega
    rw [List.append_nil, InstructionSet.decode_cons, if_pos row.opcode.isLt, BitVec.ofNat_toNat,
      BitVec.setWidth_eq, hsome]
    exact if_neg hshort

/-- Two stretches at the front of the same cells that are taken for the same are the same. -/
theorem Accounts.cells_eq (h : Accounts set w cells content) (h' : Accounts set w cells' content)
    (hlast : Ends content → rest = [] ∧ rest' = []) (heq : cells ++ rest = cells' ++ rest') :
    cells = cells' := by
  cases h with
  | instruction => cases h'; rfl
  | unknown => cases h'; rfl
  | invalid => cases h'; rfl
  | truncated =>
    obtain ⟨rfl, rfl⟩ := hlast trivial
    rwa [List.append_nil, List.append_nil] at heq

/-- A program is swept in one way only. -/
theorem Sweeps.unique (h : Sweeps set w address cells entries)
    (h' : Sweeps set w address cells entries') : entries = entries' := by
  induction h generalizing entries' with
  | done address =>
    generalize hcells : ([] : List Nat) = cells at h'
    cases h' with
    | done => rfl
    | step h _ _ => exact absurd (List.append_eq_nil_iff.1 hcells.symm).1 h.ne_nil
  | @step address cells rest content entries h hlast hrest ih =>
    generalize hcells : cells ++ rest = all at h'
    cases h' with
    | done => exact absurd (List.append_eq_nil_iff.1 hcells).1 h.ne_nil
    | step h' hlast' hrest' =>
      obtain rfl := (h.decode_eq hlast).symm.trans (hcells ▸ h'.decode_eq hlast')
      obtain rfl := h.cells_eq h' (fun hends => ⟨hlast hends, hlast' hends⟩) hcells
      obtain rfl := List.append_cancel_left hcells
      rw [ih hrest']

/-! ### The entries of a listing -/

/-- How many of the cells that are left are accounted for by what is decoded from them. -/
def taken (available : Nat) : Except DecodeError Decoded → Nat
  | .ok d => d.size
  | .error (.truncated ..) => available
  | .error (.unknownOpcode _) | .error (.invalidCell _) => 1

/-- What is decoded from cells is what a stretch at their front is taken for. -/
theorem exists_accounts (set : InstructionSet) (w : Width) (h : cells ≠ []) :
    ∃ here rest, cells = here ++ rest ∧ Accounts set w here (set.decode w cells) ∧
      here.length = taken cells.length (set.decode w cells) ∧
      (Ends (set.decode w cells) → rest = []) := by
  obtain ⟨first, rest, rfl⟩ := List.exists_cons_of_ne_nil h
  rw [InstructionSet.decode_cons]
  split
  case isFalse hbyte =>
    exact ⟨[first], rest, rfl, .invalid (Nat.le_of_not_lt hbyte), rfl, nofun⟩
  next hbyte =>
  have hfirst : (BitVec.ofNat 8 first).toNat = first := by
    rw [BitVec.toNat_ofNat, Nat.mod_eq_of_lt hbyte]
  cases hrow : set.table.decode? (BitVec.ofNat 8 first) with
  | none =>
    have hunknown : ∀ row ∈ set.table.rows, row.opcode ≠ BitVec.ofNat 8 first := by
      simpa [InstructionTable.decode?] using hrow
    refine ⟨[(BitVec.ofNat 8 first).toNat], rest, ?_, .unknown hunknown, rfl, nofun⟩
    rw [hfirst]
    rfl
  | some row =>
    obtain ⟨hmem, hopcode⟩ := InstructionTable.decode?_eq_some_iff.1 hrow
    have htoNat : row.opcode.toNat = first := hopcode ▸ hfirst
    dsimp only
    split
    next hlength =>
      have hoperands := List.length_take_of_le hlength
      have hformed : Decoded.Formed set w ⟨row, rest.take row.operands.length, w⟩ :=
        ⟨hmem, rfl, hoperands⟩
      refine ⟨_, rest.drop row.operands.length, ?_, .instruction hformed, hformed.length_cells, nofun⟩
      rw [Decoded.cells, htoNat, List.cons_append, List.take_append_drop]
    next hlength =>
      have hsize : rest.length + 1 < row.size := by
        rw [Instruction.size]
        omega
      exact ⟨first :: rest, [], (List.append_nil _).symm, htoNat ▸ .truncated hmem hsize, rfl,
        fun _ => rfl⟩

theorem entriesFrom_of_lt (h : offset < program.size) :
    let content := set.decodeAt w program offset
    let size := taken (program.size - offset) content
    entriesFrom set w origin program offset =
      ⟨origin + offset, (program.extract offset (offset + size)).toList, content⟩ ::
        entriesFrom set w origin program (offset + size) := by
  intro content size
  have hend : offset + (program.size - offset) = program.size := by omega
  rw [entriesFrom, if_pos h]
  dsimp only [content, size]
  split
  next heq => rw [heq]; rfl
  next heq =>
    rw [heq, taken, hend, entriesFrom, if_neg (Nat.lt_irrefl _)]
  next cause hcause heq =>
    have hone : taken (program.size - offset) (.error cause) = 1 := by
      cases cause with
      | truncated mnemonic needed available => exact absurd rfl (hcause mnemonic needed available)
      | unknownOpcode opcode => rfl
      | invalidCell cell => rfl
    rw [heq, hone]

theorem sweeps_entriesFrom (set : InstructionSet) (w : Width) (origin : Nat) (program : Array Nat)
    {offset : Nat} (h : offset ≤ program.size) :
    Sweeps set w (origin + offset) (program.toList.drop offset)
      (entriesFrom set w origin program offset) := by
  induction hleft : program.size - offset using Nat.strong_induction_on generalizing offset with
  | h left ih =>
  have hlength : (program.toList.drop offset).length = program.size - offset := by
    rw [List.length_drop, Array.length_toList]
  rcases Nat.lt_or_eq_of_le h with hlt | rfl
  · have hne : program.toList.drop offset ≠ [] := by
      rw [ne_eq, ← List.length_eq_zero_iff, hlength]
      omega
    obtain ⟨here, rest, hsplit, haccounts, htaken, hlast⟩ := exists_accounts set w hne
    rw [← InstructionSet.decodeAt_eq_decode] at haccounts htaken hlast
    rw [hlength] at htaken
    have hhere : (program.extract offset (offset + here.length)).toList = here := by
      rw [Array.toList_extract, List.extract_eq_take_drop, Nat.add_sub_cancel_left, hsplit,
        List.take_left]
    have hrest : program.toList.drop (offset + here.length) = rest := by
      rw [← List.drop_drop, hsplit, List.drop_left]
    have hpos := List.length_pos_of_ne_nil haccounts.ne_nil
    have hfits : here.length + rest.length = program.size - offset := by
      rw [← List.length_append, ← hsplit, hlength]
    have hnext : Sweeps set w (origin + (offset + here.length))
        (program.toList.drop (offset + here.length))
        (entriesFrom set w origin program (offset + here.length)) :=
      ih (program.size - (offset + here.length)) (by omega) (by omega) rfl
    rw [entriesFrom_of_lt hlt, ← htaken, hhere, hsplit]
    rw [hrest, ← Nat.add_assoc] at hnext
    exact .step haccounts hlast hnext
  · rw [entriesFrom, if_neg (Nat.lt_irrefl _), List.length_eq_zero_iff.1 (hlength.trans (Nat.sub_self _))]
    exact .done _

/-- The entries of a listing sweep its program. -/
theorem sweeps_entries (set : InstructionSet) (w : Width) (origin : Nat) (cells : List Nat) :
    Sweeps set w origin cells (Listing.entries set w origin cells) :=
  sweeps_entriesFrom set w origin cells.toArray (Nat.zero_le _)

/-! ### What a sweep leaves to see -/

theorem Sweeps.eq_nil (h : Sweeps set w address [] entries) : entries = [] :=
  h.unique (.done address)

theorem Sweeps.flatten (h : Sweeps set w address cells entries) :
    (entries.map Entry.cells).flatten = cells := by
  induction h with
  | done => rfl
  | step h hlast hrest ih => rw [List.map_cons, List.flatten_cons, ih]

/-- An entry is at the address that the cells before it lead to, and it is the last one if nothing can
be read after it. -/
theorem Sweeps.entry (h : Sweeps set w address cells entries)
    (hsplit : entries = before ++ e :: after) :
    e.address = address + (before.map fun e => e.cells.length).sum ∧
      Accounts set w e.cells e.content ∧ (Ends e.content → after = []) := by
  induction h generalizing before with
  | done => exact absurd hsplit (List.append_ne_nil_of_right_ne_nil _ (List.cons_ne_nil _ _)).symm
  | step haccounts hlast hrest ih =>
    cases before with
    | nil =>
      cases hsplit
      exact ⟨rfl, haccounts, fun hends => (hlast hends ▸ hrest).eq_nil⟩
    | cons first before =>
      cases hsplit
      obtain ⟨haddress, hrest⟩ := ih rfl
      refine ⟨?_, hrest⟩
      rw [haddress, List.map_cons, List.sum_cons, Nat.add_assoc]

/-- The cells that are left at an entry begin with its own, and it holds what is decoded from them. -/
theorem Sweeps.mem (h : Sweeps set w address cells entries) (he : e ∈ entries) :
    ∃ k rest, e.address = address + k ∧ cells.drop k = e.cells ++ rest ∧
      Accounts set w e.cells e.content ∧ (Ends e.content → rest = []) := by
  obtain ⟨before, after, rfl⟩ := List.append_of_mem he
  obtain ⟨haddress, haccounts, hlast⟩ := h.entry rfl
  have hlength : (before.map Entry.cells).flatten.length =
      (before.map fun e => e.cells.length).sum := by
    rw [List.length_flatten, List.map_map]
    rfl
  refine ⟨_, (after.map Entry.cells).flatten, haddress, ?_, haccounts, fun hends => ?_⟩
  · rw [← h.flatten, ← hlength, List.map_append, List.flatten_append, List.drop_left, List.map_cons,
      List.flatten_cons]
  · rw [hlast hends]
    rfl

/-! ### Programs that were assembled -/

/-- The entry shows the instruction that was written for this line, with all of its cells. -/
def Shows (set : InstructionSet) (w : Width) (line : Line) (e : Entry) : Prop :=
  ∃ d, e.content = .ok d ∧ d.cells = e.cells ∧ set.encode w line = .ok e.cells ∧
    Instruction.key d.instruction.mnemonic = Instruction.key line.mnemonic

/-- The cells of these lines are swept line by line. -/
theorem exists_sweeps {program : List Line} {written : List (List Nat)}
    (h : List.Forall₂ (fun line cells => set.encode w line = .ok cells) program written)
    (address : Nat) :
    ∃ entries, Sweeps set w address written.flatten entries ∧
      List.Forall₂ (Shows set w) program entries := by
  induction h generalizing address with
  | nil => exact ⟨[], .done address, .nil⟩
  | @cons line cells program written hline _ ih =>
    obtain ⟨entries, hsweeps, hshows⟩ := ih (address + cells.length)
    obtain ⟨row, ⟨hrow, hkey⟩, hencode⟩ := InstructionSet.encode_ok_iff.1 hline
    obtain ⟨hformed, rfl⟩ := InstructionSet.written_formed hrow hencode
    exact ⟨_, .step (.instruction hformed) False.elim hsweeps,
      .cons ⟨_, rfl, rfl, hline, hkey⟩ hshows⟩

/-- A program that was assembled is listed with an entry for each of its lines. -/
theorem entries_assembled {program : List Line} (h : set.assemble w program = .ok cells)
    (origin : Nat) : List.Forall₂ (Shows set w) program (Listing.entries set w origin cells) := by
  obtain ⟨written, hwritten, hcells⟩ := bind_ok_iff.1 h
  obtain rfl := pure_ok_iff.1 hcells
  obtain ⟨entries, hsweeps, hshows⟩ := exists_sweeps (mapM_ok_iff_forall₂.1 hwritten) origin
  rwa [(sweeps_entries set w origin written.flatten).unique hsweeps]

/-! ### The text of a listing -/

theorem lines_eq (set : InstructionSet) (w : Width) (origin : Nat) (cells : List Nat) :
    let entries := Listing.entries set w origin cells
    lines set w origin cells =
      [ "; " ++ set.name ++ " disassembly",
        "; Origin: " ++ Numeral.upperHex 4 origin,
        "; Code size: " ++ Numeral.decimal cells.length ++ " cells ("
          ++ Numeral.decimal (entries.countP fun e => e.content.isOk) ++ " instructions)",
        "" ] ++ entries.map (Entry.text w) := by
  have hcount : Entry.isInstruction = fun e => e.content.isOk := by
    funext e
    rw [Entry.isInstruction]
    cases e.content <;> rfl
  intro entries
  rw [lines, hcount]

/-- A listing goes through its cells without a gap, from its origin on: an instruction accounts for its
own cells and shows them beside its text, a cell that starts no instruction for itself, and an
instruction that is cut short for all that is left, which makes it the last. The header counts the
instructions. A program that was assembled is listed line by line, and nothing in it is an error. -/
theorem without_gaps (set : InstructionSet) (w : Width) (origin : Nat) (cells : List Nat) :
    let entries := Listing.entries set w origin cells
    text set w origin cells = String.join ((
      [ "; " ++ set.name ++ " disassembly",
        "; Origin: " ++ Numeral.upperHex 4 origin,
        "; Code size: " ++ Numeral.decimal cells.length ++ " cells ("
          ++ Numeral.decimal (entries.countP fun e => e.content.isOk) ++ " instructions)",
        "" ] ++ entries.map (Entry.text w)).map (· ++ "\n")) ∧
    (entries.map Entry.cells).flatten = cells ∧
    (∀ before e after, entries = before ++ e :: after →
      e.address = origin + (before.map fun e => e.cells.length).sum ∧
      (match e.content with
        | .ok d => d.Formed set w ∧ e.cells = d.cells ∧ e.cells.length = d.size
        | .error (.unknownOpcode opcode) =>
          e.cells = [opcode.toNat] ∧ ∀ row ∈ set.table.rows, row.opcode ≠ opcode
        | .error (.invalidCell cell) => e.cells = [cell] ∧ 256 ≤ cell
        | .error (.truncated mnemonic needed available) => after = [] ∧
          e.cells.length = available ∧ available < needed ∧ ∃ row ∈ set.table.rows,
            row.mnemonic = mnemonic ∧ row.size = needed ∧
            e.cells.head? = some row.opcode.toNat) ∧
      e.text w = Numeral.upperHex 4 e.address ++ ":  " ++
        match e.content with
        | .ok d => padded cellColumns (cellsText w e.cells) ++ d.text
        | .error cause => "; ERROR: " ++ cause.message) ∧
    ∀ program, set.assemble w program = .ok cells →
      List.Forall₂ (Shows set w) program entries := by
  intro entries
  have hsweeps := sweeps_entries set w origin cells
  refine ⟨?_, hsweeps.flatten, fun before e after hsplit => ?_,
    fun program h => entries_assembled h origin⟩
  · rw [text, lines_eq]
  · obtain ⟨haddress, haccounts, hlast⟩ := hsweeps.entry hsplit
    refine ⟨haddress, ?_, rfl⟩
    obtain ⟨address, here, content⟩ := e
    cases haccounts with
    | instruction hd => exact ⟨hd, rfl, hd.length_cells⟩
    | unknown hrows => exact ⟨rfl, hrows⟩
    | invalid hcell => exact ⟨rfl, hcell⟩
    | truncated hrow hsize => exact ⟨hlast trivial, rfl, hsize, _, hrow, rfl, rfl, rfl⟩

/-- Three lines of assembly, of which the second is at the address that the first one leads to; and a
listing with a cell that is no opcode, an instruction, and an addition that is cut short. -/
theorem without_gaps_program :
    let set := M1047.instructionSet
    let program : List Line := [⟨"LDI", [0, 200]⟩, ⟨"brbc", [1, -9]⟩, ⟨"BREAK", []⟩]
    let cells := [0x19, 0, 200, 0x29, 1, 0x77, 0x2E]
    (set.assemble .w8 program = .ok cells ∧
      ∃ first second third, Listing.entries set .w8 16 cells = [first, second, third] ∧
        Shows set .w8 ⟨"brbc", [1, -9]⟩ second ∧ second.address = 19) ∧
    text set .w8 16 [0xF0, 0, 1] =
      "; m1047 disassembly\n; Origin: 0x0010\n; Code size: 3 cells (1 instructions)\n\n" ++
      "0x0010:  ; ERROR: Unknown opcode: 0xF0\n" ++
      "0x0011:  00                      nop\n" ++
      "0x0012:  ; ERROR: Truncated instruction: ADD needs 3 cells, 1 available\n" := by
  intro set program cells
  have hassemble : set.assemble .w8 program = .ok cells := by rfl
  obtain ⟨-, -, hplaces, hlines⟩ := without_gaps set .w8 16 cells
  refine ⟨⟨hassemble, ?_⟩, by decide +kernel⟩
  have hshows := hlines program hassemble
  generalize hentries : Listing.entries set .w8 16 cells = entries at hshows hplaces
  obtain ⟨first, _, hfirst, hfrom, rfl⟩ := List.forall₂_cons_left_iff.1 hshows
  obtain ⟨second, _, hsecond, hlast, rfl⟩ := List.forall₂_cons_left_iff.1 hfrom
  obtain ⟨third, _, -, hend, rfl⟩ := List.forall₂_cons_left_iff.1 hlast
  obtain rfl := List.forall₂_nil_left_iff.1 hend
  refine ⟨first, second, third, rfl, hsecond, ?_⟩
  obtain ⟨haddress, -⟩ := hplaces [first] second [third] rfl
  have hcells : first.cells = [0x19, 0, 200] := by
    obtain ⟨-, -, -, hencode, -⟩ := hfirst
    exact (Except.ok.inj hencode).symm
  rw [haddress, List.map_singleton, hcells]
  rfl

end Listing

end Microcontroller
