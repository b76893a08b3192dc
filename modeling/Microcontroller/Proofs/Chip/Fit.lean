import Microcontroller.Proofs.Chip.Layout
import Microcontroller.Proofs.Chip.Shape
/-!
# Plans fit the storage they were made for

Planning checks every place it is going to write to, and what it sends to the stack pointer or to
the instruction pointer is an operand cell, a cell of RAM, or was wrapped. On storage that conforms
to its configuration a plan therefore fits, whatever the table says about the operands of the
instruction.
-/

namespace Microcontroller

/-- A decoded instruction whose operand cells are words of width `w`. -/
structure Decoded.Fits (w : Width) (d : Decoded) : Prop where
  width : d.width = w
  lt : ∀ cell ∈ d.operands, cell < w.capacity

variable {config : Config} {w : Width} {bits : Nat} {d : Decoded} {s : Storage}
  {layout : FlagLayout} {plan : Plan}

theorem Decoded.Fits.operand?_lt (hd : d.Fits w) {kind : OperandKind} {x : Nat}
    (h : d.operand? kind = some x) : x < w.capacity :=
  hd.lt x (mem_operands h)

namespace Plan

theorem nothing_fits : nothing.Fits config w bits :=
  ⟨List.forall_mem_nil _, fun _ h => nomatch h⟩

theorem write_fits {writes : List Write} (h : ∀ write ∈ writes, write.Fits config w bits) :
    (write writes).Fits config w bits :=
  ⟨h, fun _ h => nomatch h⟩

theorem goTo_fits {target : Nat} (h : target < w.capacity) : (goTo target).Fits config w bits :=
  ⟨List.forall_mem_nil _, fun _ heq => by cases heq; exact h⟩

theorem fits_of_next {writes : List Write} {flags : List (Flag × Bool)}
    (h : ∀ write ∈ writes, write.Fits config w bits) :
    Fits config w bits ⟨writes, flags, .next⟩ :=
  ⟨h, fun _ h => nomatch h⟩

/-! ### One kind of write at a time -/

section

variable (hs : s.Conforms config w bits)

include hs

theorem registerIndex_fits {kind : OperandKind} {i : Nat} (h : registerIndex d s kind = .ok i)
    (value : Nat) : (Write.register i value).Fits config w bits := by
  have hlt := (registerIndex_ok_iff.1 h).2
  rwa [Cells.size, hs.registers.size] at hlt

theorem pair_fits {p : Nat × Nat} (h : pair d s = .ok p) (low high : Nat) :
    (Write.register p.1 low).Fits config w bits ∧ (Write.register p.2 high).Fits config w bits := by
  have hpair := pair_lt h
  rwa [Cells.size, hs.registers.size] at hpair

theorem push_fits (hd : d.Fits w) {value : Nat} {writes : List Write}
    (h : push d s value = .ok writes) : ∀ write ∈ writes, write.Fits config w bits := by
  obtain ⟨hlt, rfl⟩ := push_ok_iff.1 h
  rw [Cells.size, hs.memory.ram.size] at hlt
  exact List.forall_mem_cons.2 ⟨hlt, List.forall_mem_singleton.2 (hd.width ▸ d.width.wrap_lt _)⟩

theorem top_lt {value : Nat} (h : top s = .ok value) : value < w.capacity :=
  (top_ok_iff.1 h).2 ▸ hs.memory.ram.getD_lt s.sp

theorem statusBit_fits {b : Nat} (h : statusBit d s = .ok b) (value : Bool) :
    (Write.status b value).Fits config w bits :=
  hs.status.length ▸ (statusBit_ok_iff.1 h).2

end

theorem drop_fits (hd : d.Fits w) : (drop d s).Fits config w bits :=
  hd.width ▸ d.width.wrap_lt _

theorem relative_lt (hd : d.Fits w) {target : Nat} (h : relative d s = .ok target) :
    target < w.capacity := by
  obtain ⟨offset, -, rfl⟩ := relative_ok_iff.1 h
  exact hd.width ▸ d.width.wrap_lt _

/-- Each kind of I/O address stands for a place of its own, and only the stack pointer takes the
value as it is, cut down to a word. -/
theorem output_fits (hs : s.Conforms config w bits) (hd : d.Fits w) {address value : Nat}
    {write : Write} (h : output d s address value = .ok write) : write.Fits config w bits := by
  rw [output] at h
  split at h
  next group _ =>
    obtain ⟨_, hgroup, rfl⟩ := by simpa only [bind_ok_iff, pure_ok_iff] using h
    obtain ⟨hlt, rfl⟩ := within_ok_iff.1 hgroup
    rwa [hs.io.digital.units] at hlt
  next channel _ =>
    obtain ⟨_, hchannel, rfl⟩ := by simpa only [bind_ok_iff, pure_ok_iff] using h
    obtain ⟨hlt, rfl⟩ := within_ok_iff.1 hchannel
    rwa [Cells.size, hs.io.analog.size] at hlt
  next =>
    cases h
    exact hd.width ▸ d.width.truncate_lt _
  next channel _ =>
    obtain ⟨_, hchannel, rfl⟩ := by simpa only [bind_ok_iff, pure_ok_iff] using h
    obtain ⟨hlt, rfl⟩ := within_ok_iff.1 hchannel
    rwa [Cells.size, hs.io.mapped.size] at hlt
  next => cases h

/-! ### All shapes -/

theorem Shape.fits (h : Shape d s plan) (hs : s.Conforms config w bits) (hd : d.Fits w) :
    plan.Fits config w bits := by
  cases h with
  | nothing => exact nothing_fits
  | comparison | bitStore => exact fits_of_next (List.forall_mem_nil _)
  | outcome _ hrd => exact fits_of_next (List.forall_mem_singleton.2 (registerIndex_fits hs hrd _))
  | word _ hrd => exact write_fits (List.forall_mem_singleton.2 (registerIndex_fits hs hrd _))
  | pairOutcome _ hp =>
    obtain ⟨hlow, hhigh⟩ := pair_fits hs hp _ _
    exact fits_of_next (List.forall_mem_cons.2 ⟨hlow, List.forall_mem_singleton.2 hhigh⟩)
  | pop _ hrd =>
    exact write_fits (List.forall_mem_cons.2
      ⟨registerIndex_fits hs hrd _, List.forall_mem_singleton.2 (drop_fits hd)⟩)
  | store _ _ hlt =>
    rw [Cells.size, hs.memory.ram.size] at hlt
    exact write_fits (List.forall_mem_singleton.2 hlt)
  | push _ hwrites => exact write_fits (push_fits hs hd hwrites)
  | call _ htarget hwrites =>
    refine ⟨push_fits hs hd hwrites, fun _ heq => ?_⟩
    cases heq
    exact hd.operand?_lt (cell_ok_iff.1 htarget)
  | output _ _ hw => exact write_fits (List.forall_mem_singleton.2 (output_fits hs hd hw))
  | pin _ _ hlt =>
    rw [hs.io.digital.length] at hlt
    exact write_fits (List.forall_mem_singleton.2 hlt)
  | statusBit _ hb => exact write_fits (List.forall_mem_singleton.2 (statusBit_fits hs hb _))
  | goTo _ htarget =>
    rcases htarget with htarget | htarget
    · exact goTo_fits (relative_lt hd htarget)
    · exact goTo_fits (hd.operand?_lt (cell_ok_iff.1 htarget))
  | ret _ htarget =>
    refine ⟨List.forall_mem_singleton.2 (drop_fits hd), fun _ heq => ?_⟩
    cases heq
    exact top_lt hs htarget
  | stop =>
    refine ⟨List.forall_mem_nil _, fun _ heq => ?_⟩
    cases heq

/-- Whatever an instruction is allowed to do, it leaves storage laid out as it was. -/
theorem of_fits (hs : s.Conforms config w bits) (hd : d.Fits w)
    (h : Plan.of d s layout = .ok plan) : plan.Fits config w bits := by
  obtain ⟨_, -, h⟩ := bind_ok_iff.1 h
  exact (shape_of_ofOperation h).fits hs hd

end Plan

end Microcontroller
