import Mathlib
import Microcontroller.Proofs.Isa.Table
import Microcontroller.Proofs.Unguarded.Steps
/-!
# Tables with indexes

A table need not be searched. Its rows are numbered as they stand, and two maps hold the number of each,
one under its opcode and one under its mnemonic in capitals. They are filled in one pass over the rows,
which finds a clash by looking up the new row in them, and a number that is looked up is used on the rows
without a check. What carries the pass is that the maps hold exactly the numbers of the rows so far. So
it makes the table that adding row by row makes, or refuses with the same error, and takes no misstep.
-/

namespace Microcontroller

open Unguarded

/-! ### Numbered members -/

section

variable {α κ : Type} [BEq κ] [Hashable κ] {key : α → κ} {xs : List α} {m : Std.HashMap κ Nat}
  {x : α} {k : κ}

/-- A map that holds, under the key of each member of a list, its place in the list, and nothing else. -/
def Numbers (key : α → κ) (xs : List α) (m : Std.HashMap κ Nat) : Prop :=
  ∀ k n, m[k]? = some n ↔ ∃ x, xs[n]? = some x ∧ key x = k

theorem Numbers.eq_none_iff (h : Numbers key xs m) : m[k]? = none ↔ ∀ x ∈ xs, key x ≠ k := by
  rw [Option.eq_none_iff_forall_ne_some]
  constructor
  · intro hnone x hx hkey
    obtain ⟨n, hn⟩ := List.getElem?_of_mem hx
    exact hnone n ((h k n).2 ⟨x, hn, hkey⟩)
  · intro hkeys n hn
    obtain ⟨x, hx, hkey⟩ := (h k n).1 hn
    exact hkeys x (List.mem_of_getElem? hx) hkey

variable [LawfulBEq κ]

theorem Numbers.nil : Numbers key [] ∅ := by
  intro k n
  simp

theorem Numbers.contains_iff (h : Numbers key xs m) : m.contains k = true ↔ k ∈ xs.map key := by
  rw [Std.HashMap.contains_eq_isSome_getElem?, ← Option.ne_none_iff_isSome, ne_eq, h.eq_none_iff,
    List.mem_map]
  push Not
  rfl

/-- What a search finds stands at the number in the map. -/
theorem Numbers.find?_eq (h : Numbers key xs m) (k : κ) :
    xs.find? (key · == k) = m[k]?.bind (xs[·]?) := by
  cases hm : m[k]? with
  | none =>
    simpa using h.eq_none_iff.1 hm
  | some n =>
    obtain ⟨x, hx, hkey⟩ := (h k n).1 hm
    rw [Option.bind_some, hx]
    cases hfind : xs.find? (key · == k) with
    | none => exact absurd (beq_iff_eq.2 hkey) (List.find?_eq_none.1 hfind x (List.mem_of_getElem? hx))
    | some y =>
      -- Both members have the key, and the map has one number for it.
      obtain ⟨i, hi⟩ := List.getElem?_of_mem (List.mem_of_find?_eq_some hfind)
      have hnumber : m[k]? = some i := (h k i).2 ⟨y, hi, beq_iff_eq.1 (List.find?_some hfind :)⟩
      obtain rfl : n = i := Option.some.inj (hm.symm.trans hnumber)
      exact hi.symm.trans hx

/-- One more member gets the next number. -/
theorem Numbers.insert (h : Numbers key xs m) (hnew : ∀ y ∈ xs, key y ≠ key x) :
    Numbers key (xs ++ [x]) (m.insert (key x) xs.length) := by
  intro k n
  rw [Std.HashMap.getElem?_insert]
  rcases Nat.lt_trichotomy n xs.length with hlt | rfl | hgt
  · rw [List.getElem?_append_left hlt]
    split
    next hk =>
      refine iff_of_false (fun heq => ?_) fun ⟨y, hy, hkey⟩ => ?_
      · exact Nat.ne_of_gt hlt (Option.some.inj heq)
      · exact hnew y (List.mem_of_getElem? hy) (hkey.trans (beq_iff_eq.1 hk).symm)
    next => exact h k n
  · rw [List.getElem?_concat_length]
    simp only [Option.some.injEq, exists_eq_left']
    split
    next hk => exact iff_of_true rfl (beq_iff_eq.1 hk)
    next hk =>
      refine iff_of_false (fun heq => ?_) fun hkey => hk (beq_iff_eq.2 hkey)
      obtain ⟨y, hy, -⟩ := (h k _).1 heq
      exact absurd hy (by simp)
  · have hnone : (xs ++ [x])[n]? = none :=
      List.getElem?_eq_none (by rw [List.length_append, List.length_singleton]; exact hgt)
    rw [hnone]
    refine iff_of_false (fun heq => ?_) nofun
    split at heq
    · exact Nat.ne_of_lt hgt (Option.some.inj heq)
    · obtain ⟨y, hy, -⟩ := (h k n).1 heq
      rw [List.getElem?_eq_none (Nat.le_of_lt hgt)] at hy
      cases hy

end

/-! ### The two maps of a table -/

/-- The numbers of rows, by opcode and by mnemonic. -/
structure RowIndex where
  byOpcode : Std.HashMap Byte Nat
  byMnemonic : Std.HashMap (List Char) Nat

namespace RowIndex

def empty : RowIndex := ⟨∅, ∅⟩

def add (index : RowIndex) (row : Instruction) (n : Nat) : RowIndex where
  byOpcode := index.byOpcode.insert row.opcode n
  byMnemonic := index.byMnemonic.insert (Instruction.key row.mnemonic) n

/-- Take in the next row of these, with its number. -/
def push! (rows : Array Instruction) (index : RowIndex) (next : Instruction × Nat) :
    Refusable Error RowIndex := do
  let (row, n) := next
  match index.byOpcode[row.opcode]? with
  | some first =>
    let first ← readAt rows first
    checked (.error (.duplicateOpcode row.opcode first.mnemonic row.mnemonic))
  | none =>
    if index.byMnemonic.contains (Instruction.key row.mnemonic) then
      checked (.error (.duplicateMnemonic row.mnemonic))
    else return index.add row n

def ofRows! (rows : List Instruction) : Refusable Error RowIndex :=
  rows.zipIdx.foldlM (push! rows.toArray) empty

def decode! (index : RowIndex) (rows : Array Instruction) (opcode : Byte) :
    Unguarded (Option Instruction) :=
  match index.byOpcode[opcode]? with
  | some n => do return some (← readAt rows n)
  | none => .ok none

def lookup! (index : RowIndex) (rows : Array Instruction) (mnemonic : String) :
    Refusable Error Instruction :=
  match index.byMnemonic[Instruction.key mnemonic]? with
  | some n => readAt rows n
  | none => checked (.error (.unknownMnemonic mnemonic))

/-- The maps hold the numbers of these rows. -/
structure Exact (index : RowIndex) (rows : List Instruction) : Prop where
  opcodes : Numbers Instruction.opcode rows index.byOpcode
  mnemonics : Numbers (Instruction.key ·.mnemonic) rows index.byMnemonic

variable {index : RowIndex} {t t' : InstructionTable} {row : Instruction}
  {rows after : List Instruction} {e : Error}

theorem exact_empty : empty.Exact [] := ⟨.nil, .nil⟩

theorem Exact.add (h : index.Exact rows) (hapart : ∀ r ∈ rows, r.Apart row) :
    (index.add row rows.length).Exact (rows ++ [row]) where
  opcodes := h.opcodes.insert fun r hr => (hapart r hr).1
  mnemonics := h.mnemonics.insert fun r hr hkey => (hapart r hr).2 (key_eq_iff.1 hkey)

/-- A row that a table takes is taken in. -/
theorem Exact.push!_of_ok (h : index.Exact t.rows) (rows : Array Instruction)
    (hpush : t.push row = .ok t') :
    push! rows index (row, t.rows.length) = .ok (index.add row t.rows.length) := by
  obtain ⟨hapart, -⟩ := InstructionTable.push_ok_iff.1 hpush
  have hopcode : index.byOpcode[row.opcode]? = none :=
    h.opcodes.eq_none_iff.2 fun r hr => (hapart r hr).1
  have hmnemonic : ¬ index.byMnemonic.contains (Instruction.key row.mnemonic) = true := by
    rw [h.mnemonics.contains_iff, InstructionTable.mem_keys_iff]
    exact fun ⟨r, hr, hsame⟩ => (hapart r hr).2 hsame
  simp only [push!, hopcode, if_neg hmnemonic]
  rfl

/-- A row that a table refuses is refused for the same reason, and the number of the row it clashes with
is one of the rows. -/
theorem Exact.push!_of_error (h : index.Exact t.rows) (hpush : t.push row = .error e) :
    push! (t.rows ++ row :: after).toArray index (row, t.rows.length) = checked (.error e) := by
  cases InstructionTable.push_error_iff.1 hpush with
  | @opcode first hfirst hopcode =>
    obtain ⟨n, hn⟩ := List.getElem?_of_mem hfirst
    obtain ⟨hlt, -⟩ := List.getElem?_eq_some_iff.1 hn
    have hnumber : index.byOpcode[row.opcode]? = some n := (h.opcodes _ _).2 ⟨first, hn, hopcode⟩
    have hread : (t.rows ++ row :: after).toArray[n]? = some first := by
      rw [List.getElem?_toArray, List.getElem?_append_left hlt, hn]
    simp only [push!, hnumber]
    rw [lift_bind_eq (readAt_eq hread)]
  | mnemonic hopcodes hfirst hsame =>
    have hopcode : index.byOpcode[row.opcode]? = none := h.opcodes.eq_none_iff.2 hopcodes
    have hmnemonic : index.byMnemonic.contains (Instruction.key row.mnemonic) = true := by
      rw [h.mnemonics.contains_iff, InstructionTable.mem_keys_iff]
      exact ⟨_, hfirst, hsame⟩
    simp only [push!, hopcode, hmnemonic, if_true]

/-- A pass over rows that comes to what adding them to a table comes to, with exact maps. -/
def Makes (made : Refusable Error RowIndex) : Except Error InstructionTable → Prop
  | .ok t => ∃ index, made = .ok index ∧ index.Exact t.rows
  | .error e => made = checked (.error e)

theorem Exact.foldlM_push! (h : index.Exact t.rows) (rows : List Instruction) :
    Makes ((rows.zipIdx t.rows.length).foldlM (push! (t.rows ++ rows).toArray) index)
      (rows.foldlM InstructionTable.push t) := by
  induction rows generalizing index t with
  | nil => exact ⟨index, rfl, h⟩
  | cons row rows ih =>
    rw [List.zipIdx_cons, List.foldlM_cons, List.foldlM_cons]
    cases hpush : t.push row with
    | error e =>
      rw [h.push!_of_error hpush]
      rfl
    | ok t' =>
      obtain ⟨hapart, hrows⟩ := InstructionTable.push_ok_iff.1 hpush
      rw [h.push!_of_ok _ hpush]
      have hnext : (index.add row t.rows.length).Exact t'.rows := hrows ▸ h.add hapart
      have hrest := ih hnext
      rw [hrows, List.length_append, List.length_singleton, ← List.append_cons] at hrest
      exact hrest

theorem ofRows!_makes (rows : List Instruction) :
    Makes (ofRows! rows) (InstructionTable.ofRows rows) :=
  exact_empty.foldlM_push! (t := .empty) rows

/-! ### Finding a row -/

theorem Exact.decode!_eq (h : index.Exact t.rows) (opcode : Byte) :
    index.decode! t.rows.toArray opcode = .ok (t.decode? opcode) := by
  rw [decode!, InstructionTable.decode?, h.opcodes.find?_eq]
  cases hn : index.byOpcode[opcode]? with
  | none => rfl
  | some n =>
    obtain ⟨row, hrow, -⟩ := (h.opcodes _ _).1 hn
    dsimp only
    rw [bind_eq (readAt_eq (List.getElem?_toArray.trans hrow)), Option.bind_some, hrow]
    rfl

theorem Exact.lookup!_eq (h : index.Exact t.rows) (mnemonic : String) :
    index.lookup! t.rows.toArray mnemonic = checked (t.lookup mnemonic) := by
  rw [lookup!, InstructionTable.lookup, h.mnemonics.find?_eq]
  cases hn : index.byMnemonic[Instruction.key mnemonic]? with
  | none => rfl
  | some n =>
    obtain ⟨row, hrow, -⟩ := (h.mnemonics _ _).1 hn
    dsimp only
    rw [lift_eq (readAt_eq (List.getElem?_toArray.trans hrow)), Option.bind_some, hrow]
    rfl

/-- Rows make a table with two maps where they make a table, and fail with the same error where they do
not. The maps find what a search through the rows finds, and no number they hold is past the rows. -/
theorem refines (rows : List Instruction) :
    (∀ e, InstructionTable.ofRows rows = .error e → ofRows! rows = checked (.error e)) ∧
    ∀ t, InstructionTable.ofRows rows = .ok t → ∃ index, ofRows! rows = .ok index ∧
      (∀ opcode, index.decode! rows.toArray opcode = .ok (t.decode? opcode)) ∧
      ∀ mnemonic, index.lookup! rows.toArray mnemonic = checked (t.lookup mnemonic) := by
  have hmakes := ofRows!_makes rows
  refine ⟨fun e he => ?_, fun t ht => ?_⟩
  · rwa [he] at hmakes
  · rw [ht] at hmakes
    obtain ⟨index, hindex, hexact⟩ := hmakes
    obtain ⟨-, rfl⟩ := InstructionTable.ofRows_ok_iff.1 ht
    exact ⟨index, hindex, hexact.decode!_eq, hexact.lookup!_eq⟩

end RowIndex

end Microcontroller
