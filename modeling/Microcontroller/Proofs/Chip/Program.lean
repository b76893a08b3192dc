import Microcontroller.Proofs.Chip.Reachable
import Microcontroller.Proofs.Isa.Decode
/-!
# Programs in memory

The cells of a program, from the first address of it on. This is where the cells that an assembler
wrote and a chip loaded come together with the cells that the chip fetches; when a program was
loaded, and what the chip did since, makes no difference as long as they are there.
-/

namespace Microcontroller.Chip

variable {c : Chip} {address : Nat} {cells : List Nat}

/-- These cells stand in program memory, the first of them at the address. -/
def Holds (c : Chip) (address : Nat) (cells : List Nat) : Prop :=
  ∀ k x, cells[k]? = some x → c.program[address + k]? = some x

theorem holds_of_loadProgram {set : InstructionSet} {config : Config} (hc : c.Conforms set config)
    (hcells : ∀ x ∈ cells, x < c.width.capacity) {loaded : Chip}
    (h : c.loadProgram address cells = .ok loaded) : loaded.Holds address cells := by
  obtain ⟨m, hm, hloaded⟩ := bind_ok_iff.1 h
  rw [← pure_ok_iff.1 hloaded]
  have hload := Memory.load_program (mapError_ok_iff.1 hm)
  obtain ⟨len, hfits⟩ := hc.storage.memory.exists_program_fits
  intro k x hk
  obtain ⟨hlt, -⟩ := List.getElem?_eq_some_iff.1 hk
  have hx := hcells x (List.mem_of_getElem? hk)
  change m.program.raw[address + k]? = some x
  rw [Cells.raw?_load hload, if_pos (by omega), Nat.add_sub_cancel_left, hk, hfits.width,
    Option.map_some, Width.truncate_of_lt hx]

/-- An instruction is fetched from where its cells stand. -/
theorem Holds.fetch {d : Decoded} (h : c.Holds address d.cells)
    (hd : d.Formed c.instructions c.width) : c.fetch address = .ok d := by
  have hdecode := InstructionSet.decodeAt_of_stands hd h
  simp only [Chip.fetch]
  rw [show c.storage.memory.program.raw = c.program from rfl, hdecode]

theorem Holds.cellAt (h : c.Holds c.storage.ip cells) {k x : Nat} (hk : cells[k]? = some x) :
    c.cellAt k = x := by
  rw [Chip.cellAt, Array.getD_eq_getD_getElem?, h k x hk, Option.getD_some]

end Microcontroller.Chip
