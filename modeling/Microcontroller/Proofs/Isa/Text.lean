import Mathlib.Data.List.Basic
import Microcontroller.Isa.Assembly
import Microcontroller.Isa.M1047
import Microcontroller.Proofs.Isa.Decode
import Microcontroller.Proofs.Isa.Pointer
import Microcontroller.Proofs.LetterCase
import Microcontroller.Proofs.Numeral
/-!
# What the text of an instruction says

The text of an instruction can be taken apart again: the mnemonic ends at the first space, and each
operand but the last at a comma. Small letters keep apart what the table keeps apart, and an operand is
spelled in a way of its kind that shows its cell, or its offset. So the text names the row and, up to
the bits of an offset cell that are not read, the operand cells.
-/

namespace Microcontroller

/-! ### Taking a text apart -/

theorem takeWhile_ne_append {a : Char} {xs : List Char} (h : a ∉ xs) (ys : List Char) :
    (xs ++ ys).takeWhile (· != a) = xs ++ ys.takeWhile (· != a) :=
  List.takeWhile_append_of_pos fun _ hx => bne_iff_ne.2 fun heq => h (heq ▸ hx)

theorem takeWhile_ne_append_cons {a : Char} {xs : List Char} (h : a ∉ xs) (ys : List Char) :
    (xs ++ a :: ys).takeWhile (· != a) = xs := by
  rw [takeWhile_ne_append h, List.takeWhile_cons_of_neg (by simp), List.append_nil]

theorem append_cons_inj {a : Char} {xs xs' ys ys' : List Char} (h : a ∉ xs) (h' : a ∉ xs') :
    xs ++ a :: ys = xs' ++ a :: ys' ↔ xs = xs' ∧ ys = ys' := by
  constructor
  · intro heq
    have hxs : xs = xs' := by
      rw [← takeWhile_ne_append_cons h ys, heq, takeWhile_ne_append_cons h']
    subst hxs
    exact ⟨rfl, (List.cons.inj (List.append_cancel_left heq)).2⟩
  · rintro ⟨rfl, rfl⟩
    rfl

/-- Pieces in which the separator does not begin can be told from what they are joined to. -/
theorem intercalate_inj {a : Char} {sep : List Char} {xs ys : List (List Char)}
    (hlength : xs.length = ys.length) (hxs : ∀ x ∈ xs, a ∉ x) (hys : ∀ y ∈ ys, a ∉ y) :
    (a :: sep).intercalate xs = (a :: sep).intercalate ys ↔ xs = ys := by
  refine ⟨fun h => ?_, fun h => h ▸ rfl⟩
  induction xs generalizing ys with
  | nil => exact (List.length_eq_zero_iff.1 hlength.symm).symm
  | cons x xs ih =>
    obtain _ | ⟨y, ys⟩ := ys
    · cases hlength
    have hrest : xs.length = ys.length := Nat.succ.inj hlength
    obtain ⟨hx, hxs⟩ := List.forall_mem_cons.1 hxs
    obtain ⟨hy, hys⟩ := List.forall_mem_cons.1 hys
    cases xs with
    | nil =>
      obtain rfl := List.length_eq_zero_iff.1 hrest.symm
      rw [List.intercalate_singleton, List.intercalate_singleton] at h
      rw [h]
    | cons x' xs =>
      obtain _ | ⟨y', ys⟩ := ys
      · cases hrest
      rw [List.intercalate_cons_cons, List.intercalate_cons_cons, List.append_assoc,
        List.append_assoc, List.cons_append, List.cons_append, append_cons_inj hx hy] at h
      rw [h.1, ih hrest hxs hys (List.append_cancel_left h.2)]

theorem commas_inj {ss ts : List String} (hlength : ss.length = ts.length)
    (hss : ∀ s ∈ ss, ',' ∉ s.toList) (hts : ∀ t ∈ ts, ',' ∉ t.toList) :
    ", ".intercalate ss = ", ".intercalate ts ↔ ss = ts := by
  have hchars : (',' :: [' ']).intercalate (ss.map String.toList) =
      (',' :: [' ']).intercalate (ts.map String.toList) ↔
        ss.map String.toList = ts.map String.toList :=
    intercalate_inj (by rw [List.length_map, List.length_map, hlength])
      (List.forall_mem_map.2 hss) (List.forall_mem_map.2 hts)
  rw [← String.toList_inj, String.toList_intercalate, String.toList_intercalate]
  exact hchars.trans (List.map_inj_right fun _ _ => String.toList_inj.1)

/-! ### One operand -/

theorem Pointer.name_injective {p q : Pointer} (h : p.name = q.name) : p = q := by
  revert h
  cases p <;> cases q <;> decide

theorem Pointer.name_ne_question (p : Pointer) (s : String) : p.name ≠ "?" ++ s := by
  intro h
  have hlist : p.name.toList = '?' :: s.toList := by
    rw [h, String.toList_append]
    rfl
  cases p <;> cases hlist

/-- Whether two cells stand for one operand: an offset cell counts by its offset. -/
def Instruction.Alike (i : Instruction) (w : Width) (kind : OperandKind) (x y : Nat) : Prop :=
  if kind = .offset then i.offset w x = i.offset w y else x = y

namespace Decoded

variable {d d' : Decoded}

theorem pointerText_inj {x y : Nat} :
    d.operandText .pointer x = d.operandText .pointer y ↔ x = y := by
  refine ⟨fun h => ?_, fun h => h ▸ rfl⟩
  simp only [operandText] at h
  cases hx : Pointer.ofIndex? x <;> cases hy : Pointer.ofIndex? y <;> simp only [hx, hy] at h
  case some.some p q =>
    rw [← Pointer.ofIndex?_eq_some_iff.1 hx, ← Pointer.ofIndex?_eq_some_iff.1 hy,
      Pointer.name_injective h]
  case some.none p => exact absurd h (p.name_ne_question _)
  case none.some q => exact absurd h.symm (q.name_ne_question _)
  case none.none => exact Numeral.decimal_inj.1 ((String.append_right_inj _).1 h)

/-- An operand is shown as another of its kind only if their cells are alike. -/
theorem operandText_inj {kind : OperandKind} {x y : Nat} :
    d.operandText kind x = d.operandText kind y ↔ d.instruction.Alike d.width kind x y := by
  cases kind with
  | destination | source | result =>
    exact (String.append_right_inj _).trans Numeral.decimal_inj
  | immediate | bit | flagBit => exact Numeral.decimal_inj
  | address | ioAddress => exact Numeral.hex_inj
  | offset => exact Numeral.withSign_inj
  | pointer => exact pointerText_inj

theorem comma_notMem_append {s t : String} (hs : ',' ∉ s.toList) (ht : ',' ∉ t.toList) :
    ',' ∉ (s ++ t).toList := by
  rw [String.toList_append, List.mem_append, not_or]
  exact ⟨hs, ht⟩

theorem comma_notMem_operandText (kind : OperandKind) (x : Nat) :
    ',' ∉ (d.operandText kind x).toList := by
  have hdecimal := Numeral.comma_notMem_decimal x
  cases kind with
  | destination | source | result => exact comma_notMem_append (by decide) hdecimal
  | immediate | bit | flagBit => exact hdecimal
  | address | ioAddress => exact Numeral.comma_notMem_hex 2 x
  | offset => exact Numeral.comma_notMem_withSign _
  | pointer =>
    rw [operandText]
    split
    next p _ => cases p <;> decide
    next => exact comma_notMem_append (by decide) hdecimal

/-! ### All operands -/

/-- The texts of the operands. -/
def operandTexts (d : Decoded) : List String :=
  d.fields.map fun (kind, cell) => d.operandText kind cell

theorem text_eq (d : Decoded) : d.text = if d.operands.isEmpty then d.mnemonicText
    else d.mnemonicText ++ " " ++ ", ".intercalate d.operandTexts := rfl

theorem comma_notMem_operandTexts : ∀ s ∈ d.operandTexts, ',' ∉ s.toList :=
  List.forall_mem_map.2 fun field _ => comma_notMem_operandText field.1 field.2

theorem length_operandTexts (h : d.operands.length = d.instruction.operands.length) :
    d.operandTexts.length = d.instruction.operands.length := by
  rw [operandTexts, List.length_map, fields, List.length_zip, h, Nat.min_self]

theorem map_zip_eq_map_zip_iff {α β γ : Type} {f : α → β → γ} {ks : List α} {xs ys : List β}
    (hxs : xs.length = ks.length) (hys : ys.length = ks.length) :
    ((ks.zip xs).map fun (k, x) => f k x) = ((ks.zip ys).map fun (k, y) => f k y) ↔
      ∀ (n : Nat) k x y, ks[n]? = some k → xs[n]? = some x → ys[n]? = some y → f k x = f k y := by
  induction ks generalizing xs ys with
  | nil => simp
  | cons k ks ih =>
    obtain _ | ⟨x, xs⟩ := xs
    · cases hxs
    obtain _ | ⟨y, ys⟩ := ys
    · cases hys
    rw [List.zip_cons_cons, List.zip_cons_cons, List.map_cons, List.map_cons, List.cons.injEq,
      ih (Nat.succ.inj hxs) (Nat.succ.inj hys)]
    constructor
    · rintro ⟨hhead, htail⟩ (_ | n) k' x' y' hk hx hy
      · cases hk
        cases hx
        cases hy
        exact hhead
      · exact htail n k' x' y' hk hx hy
    · intro h
      exact ⟨h 0 k x y rfl rfl rfl, fun n => h (n + 1)⟩

section

variable (hrow : d'.instruction = d.instruction) (hwidth : d'.width = d.width)
  (hlength : d.operands.length = d.instruction.operands.length)
  (hlength' : d'.operands.length = d.instruction.operands.length)
include hrow hwidth hlength hlength'

theorem operandTexts_inj : d.operandTexts = d'.operandTexts ↔
    ∀ (n : Nat) kind x y, d.instruction.operands[n]? = some kind →
      d.operands[n]? = some x → d'.operands[n]? = some y →
        d.instruction.Alike d.width kind x y := by
  have htext (kind : OperandKind) (x : Nat) : d'.operandText kind x = d.operandText kind x := by
    simp only [operandText, hrow, hwidth]
  simp only [operandTexts, fields, htext, hrow, map_zip_eq_map_zip_iff hlength hlength',
    operandText_inj]

/-- Two instructions of one row have one text where the cells of each operand are alike. -/
theorem text_eq_text_iff : d.text = d'.text ↔
    ∀ (n : Nat) kind x y, d.instruction.operands[n]? = some kind →
      d.operands[n]? = some x → d'.operands[n]? = some y →
        d.instruction.Alike d.width kind x y := by
  have hmnemonic : d'.mnemonicText = d.mnemonicText := by rw [mnemonicText, mnemonicText, hrow]
  have hempty : d'.operands.isEmpty = d.operands.isEmpty := by
    rw [Bool.eq_iff_iff, List.isEmpty_iff_length_eq_zero, List.isEmpty_iff_length_eq_zero, hlength,
      hlength']
  have hcount : d.operandTexts.length = d'.operandTexts.length := by
    rw [length_operandTexts hlength, length_operandTexts (hrow ▸ hlength'), hrow]
  rw [text_eq, text_eq, hmnemonic, hempty]
  split
  next hnone =>
    rw [List.isEmpty_iff.1 hnone]
    exact iff_of_true rfl nofun
  next =>
    rw [String.append_right_inj, commas_inj hcount comma_notMem_operandTexts
      comma_notMem_operandTexts, operandTexts_inj hrow hwidth hlength hlength']

end

/-! ### The row -/

theorem space_notMem_mnemonicText (h : ' ' ∉ d.instruction.mnemonic.toList) :
    ' ' ∉ d.mnemonicText.toList := by
  rw [mnemonicText, String.toList_ofList, List.mem_map]
  rintro ⟨c, hc, hspace⟩
  have hsame : SameLetter c ' ' := toLower_eq_iff.1 (hspace.trans (by decide : _ = ' '.toLower))
  rcases hsame with rfl | ⟨hcapital, -, hsmall⟩ | ⟨hcapital, -, -⟩
  · exact h hc
  · have hlow : 65 ≤ c.toNat := hcapital
    have hvalue : 32 = c.toNat + 32 := hsmall
    omega
  · exact absurd hcapital (by decide)

/-- The mnemonic is what stands before the first space. -/
theorem takeWhile_text (h : ' ' ∉ d.instruction.mnemonic.toList) :
    d.text.toList.takeWhile (· != ' ') = d.mnemonicText.toList := by
  have hmnemonic := space_notMem_mnemonicText h
  rw [text_eq]
  split
  next =>
    have hwhole := takeWhile_ne_append hmnemonic []
    rwa [List.append_nil, List.takeWhile_nil, List.append_nil] at hwhole
  next =>
    rw [String.toList_append, String.toList_append, List.append_assoc]
    exact takeWhile_ne_append_cons hmnemonic _

/-- Instructions of one table with one text are of one row. -/
theorem instruction_eq_of_text {set : InstructionSet} {w w' : Width}
    (hspace : ∀ row ∈ set.table.rows, ' ' ∉ row.mnemonic.toList) (hd : d.Formed set w)
    (hd' : d'.Formed set w') (h : d.text = d'.text) : d.instruction = d'.instruction := by
  have hmnemonic : d.mnemonicText.toList = d'.mnemonicText.toList := by
    rw [← takeWhile_text (hspace _ hd.row), h, takeWhile_text (hspace _ hd'.row)]
  rw [mnemonicText, mnemonicText, String.toList_ofList, String.toList_ofList,
    map_toLower_eq_iff, ← key_eq_iff] at hmnemonic
  exact List.inj_on_of_nodup_map set.table.mnemonics hd.row hd'.row hmnemonic

theorem getElem?_of_cells_prefix {cells : List Nat} (h : d.cells <+: cells) {n x : Nat}
    (hx : d.operands[n]? = some x) : cells[n + 1]? = some x := by
  obtain ⟨rest, rfl⟩ := h
  obtain ⟨hlt, -⟩ := List.getElem?_eq_some_iff.1 hx
  change (d.operands ++ rest)[n]? = some x
  rw [List.getElem?_append_left hlt, hx]

end Decoded

/-- The text of an instruction says which row it is and what its operands are: two have one text if
and only if they are of one row, with equal cells for all operands but offsets and equal offsets. -/
theorem InstructionSet.texts_identify {set : InstructionSet} {w : Width} {cells cells' : List Nat}
    {d d' : Decoded} (hspace : ∀ row ∈ set.table.rows, ' ' ∉ row.mnemonic.toList)
    (h : set.decode w cells = .ok d) (h' : set.decode w cells' = .ok d') :
    d.text = d'.text ↔ d.instruction = d'.instruction ∧
      ∀ (n : Nat) kind, d.instruction.operands[n]? = some kind →
        ∃ x y, cells[n + 1]? = some x ∧ cells'[n + 1]? = some y ∧
          if kind = .offset then d.instruction.offset w x = d.instruction.offset w y else x = y := by
  obtain ⟨hd, hcells⟩ := decode_ok_iff.1 h
  obtain rfl := hd.width
  obtain ⟨hd', hcells'⟩ := decode_ok_iff.1 h'
  have hlast {n : Nat} {kind : OperandKind} (hkind : d.instruction.operands[n]? = some kind) :
      n < d.instruction.operands.length := (List.getElem?_eq_some_iff.1 hkind).1
  constructor
  · intro htext
    have hrow := Decoded.instruction_eq_of_text hspace hd hd' htext
    have hlength' : d'.operands.length = d.instruction.operands.length := hrow ▸ hd'.length
    have halike := (Decoded.text_eq_text_iff hrow.symm hd'.width hd.length hlength').1 htext
    refine ⟨hrow, fun n kind hkind => ?_⟩
    have hx := List.getElem?_eq_getElem (hd.length.symm ▸ hlast hkind)
    have hy := List.getElem?_eq_getElem (hlength'.symm ▸ hlast hkind)
    refine ⟨_, _, Decoded.getElem?_of_cells_prefix hcells hx,
      Decoded.getElem?_of_cells_prefix hcells' hy, ?_⟩
    exact halike n kind _ _ hkind hx hy
  · rintro ⟨hrow, halike⟩
    have hlength' : d'.operands.length = d.instruction.operands.length := hrow ▸ hd'.length
    refine (Decoded.text_eq_text_iff hrow.symm hd'.width hd.length hlength').2
      fun n kind x y hkind hx hy => ?_
    obtain ⟨x', y', hx', hy', hxy⟩ := halike n kind hkind
    rw [Decoded.getElem?_of_cells_prefix hcells hx] at hx'
    rw [Decoded.getElem?_of_cells_prefix hcells' hy] at hy'
    cases hx'
    cases hy'
    exact hxy

/-- A branch two cells back is spelled `brbs 3, -2` whether or not the spare bit of its offset cell is
set; a branch three cells back is spelled otherwise. -/
theorem M1047.texts_identify_branch : ∃ back spare farther : Decoded,
    instructionSet.decode .w8 [0x28, 3, 0x7E] = .ok back ∧
    instructionSet.decode .w8 [0x28, 3, 0xFE] = .ok spare ∧
    instructionSet.decode .w8 [0x28, 3, 0x7D] = .ok farther ∧
    back.text = spare.text ∧ back.text ≠ farther.text := by
  have hspace : ∀ row ∈ instructionSet.table.rows, ' ' ∉ row.mnemonic.toList := by decide +kernel
  let back : Decoded := ⟨⟨"BRBS", 0x28, .branchIfSet, [.flagBit, .offset], [], none,
    "Branch if status bit s is set"⟩, [3, 0x7E], .w8⟩
  have hback : instructionSet.decode .w8 [0x28, 3, 0x7E] = .ok back := rfl
  have hspare : instructionSet.decode .w8 [0x28, 3, 0xFE] = .ok { back with operands := [3, 0xFE] } :=
    rfl
  have hfarther :
      instructionSet.decode .w8 [0x28, 3, 0x7D] = .ok { back with operands := [3, 0x7D] } := rfl
  refine ⟨_, _, _, hback, hspare, hfarther, ?_, fun htext => ?_⟩
  · refine (InstructionSet.texts_identify hspace hback hspare).2 ⟨rfl, ?_⟩
    rintro (_ | _ | n) kind hkind
    · cases hkind
      exact ⟨3, 3, rfl, rfl, rfl⟩
    · cases hkind
      exact ⟨0x7E, 0xFE, rfl, rfl, by decide⟩
    · cases hkind
  · obtain ⟨-, halike⟩ := (InstructionSet.texts_identify hspace hback hfarther).1 htext
    obtain ⟨x, y, hx, hy, hxy⟩ := halike 1 .offset rfl
    cases hx
    cases hy
    exact absurd hxy (by decide)

end Microcontroller
