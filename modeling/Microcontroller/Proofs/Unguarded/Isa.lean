import Microcontroller.AddressMap
import Microcontroller.Chip.Alu
import Microcontroller.Isa.Assembly
import Microcontroller.Proofs.Isa.Decode
import Microcontroller.Proofs.Unguarded.Word
/-!
# Instructions without guards

An instruction is looked up by the number of its row, its operands by their place among the kinds of
the row, and what belongs to a flag by the number of the flag. None of these numbers is checked where
it is used. The rows and the flags are numbered as they stand; but that an operand has a cell is owed
to decoding, which takes exactly as many cells as the row has operands.
-/

namespace Microcontroller

open Unguarded

/-! ### Looking up by number -/

section

variable {κ α : Type}

/-- The value beside the first key that passes the test, by way of the number of the key. -/
def locate! (test : κ → Bool) (keys : List κ) (values : List α) : Unguarded (Option α) :=
  match keys.findIdx? test with
  | some i => do return some (← readAt values.toArray i)
  | none => .ok none

theorem find?_zip {test : κ → Bool} {keys : List κ} {values : List α}
    (h : values.length = keys.length) :
    ((keys.zip values).find? (test ·.1)).map (·.2) = (keys.findIdx? test).bind (values[·]?) := by
  induction keys generalizing values with
  | nil => rfl
  | cons key keys ih =>
    cases values with
    | nil => cases h
    | cons value values =>
      rw [List.zip_cons_cons, List.find?_cons, List.findIdx?_cons]
      dsimp only
      cases test key with
      | true => rfl
      | false =>
        dsimp only
        rw [ih (Nat.succ.inj h), if_neg Bool.false_ne_true]
        cases keys.findIdx? test <;> rfl

theorem locate!_eq {test : κ → Bool} {keys : List κ} {values : List α}
    (h : values.length = keys.length) :
    locate! test keys values = .ok (((keys.zip values).find? (test ·.1)).map (·.2)) := by
  rw [locate!, find?_zip h]
  cases hi : keys.findIdx? test with
  | none => rfl
  | some i =>
    obtain ⟨hlt, -⟩ := List.findIdx?_eq_some_iff_getElem.1 hi
    obtain ⟨value, hvalue⟩ : ∃ value, values[i]? = some value :=
      ⟨_, List.getElem?_eq_getElem (h ▸ hlt)⟩
    have hread : values.toArray[i]? = some value := List.getElem?_toArray.trans hvalue
    dsimp only
    rw [bind_eq (readAt_eq hread), Option.bind_some, hvalue]
    rfl

end

/-- What belongs to a flag, out of a table with an entry for each of them. -/
def atFlag! {α : Type} (entry : Flag → α) (f : Flag) : Unguarded α :=
  readAt (Flag.all.map entry).toArray f.ordinal

theorem atFlag!_eq {α : Type} (entry : Flag → α) (f : Flag) : atFlag! entry f = .ok (entry f) := by
  cases f <;> rfl

def FlagLayout.index! (l : FlagLayout) (f : Flag) : Unguarded Nat := do
  return (← atFlag! l.position f).toNat

theorem FlagLayout.index!_eq (l : FlagLayout) (f : Flag) : l.index! f = .ok (l.index f) := by
  rw [index!, bind_eq (atFlag!_eq l.position f)]
  rfl

def Pointer.pair! (p : Pointer) (registers : Nat) : Unguarded (Option (Nat × Nat)) := do
  let fromTop ← sub 6 (2 * p.index)
  return if fromTop ≤ registers then some (registers - fromTop, registers - fromTop + 1) else none

theorem Pointer.pair!_eq (p : Pointer) (registers : Nat) :
    p.pair! registers = .ok (p.pair? registers) := by
  have hindex : 2 * p.index ≤ 6 := by cases p <;> decide
  rw [pair!, bind_eq (sub_eq hindex)]
  rfl

namespace AddressMap

def resolve! (address : Nat) : Unguarded Target :=
  if address < pinGroups then .ok (.digital address)
  else if analogBase ≤ address ∧ address < analogBase + analogChannels then do
    return .analog (← sub address analogBase)
  else if address = stackPointer then .ok .stackPointer
  else if mappedBase ≤ address then do return .mapped (← sub address mappedBase)
  else .ok .reserved

theorem resolve!_eq (address : Nat) : resolve! address = .ok (resolve address) := by
  rw [resolve!, resolve]
  by_cases hdigital : address < pinGroups
  · rw [if_pos hdigital, if_pos hdigital]
  have hanalog : analogBase ≤ address := Nat.le_of_not_lt hdigital
  simp only [if_neg hdigital, hanalog, true_and]
  split
  next => rw [bind_eq (sub_eq hanalog)]; rfl
  split
  next => rfl
  split
  next hmapped => rw [bind_eq (sub_eq hmapped)]; rfl
  next => rfl

end AddressMap

/-! ### Offsets -/

namespace Instruction

def offset! (i : Instruction) (w : Width) (cell : Nat) : Unguarded Int := do
  let mask ← mask! 32 (i.offsetBits w)
  signExtend! (i.offsetBits w) (cell &&& mask)

theorem offset!_eq (i : Instruction) (w : Width) (cell : Nat) :
    i.offset! w cell = .ok (i.offset w cell) := by
  have hpos := i.offsetBits_pos w
  have hle : i.offsetBits w ≤ 32 := Nat.le_trans (i.offsetBits_le w) w.bits_le
  rw [offset!, bind_eq (mask!_eq hle), Nat.and_two_pow_sub_one_eq_mod,
    signExtend!_eq hpos (Nat.le_trans hle (by decide)), TwosComplement.decode_mod]
  rfl

end Instruction

/-! ### Operands -/

namespace Decoded

/-- A cell for each operand of the row. -/
def Whole (d : Decoded) : Prop := d.operands.length = d.instruction.operands.length

def operand! (d : Decoded) (kind : OperandKind) : Unguarded (Option Nat) :=
  locate! (kind == ·) d.instruction.operands d.operands

theorem lookup_eq_find? (kind : OperandKind) (fields : List (OperandKind × Nat)) :
    fields.lookup kind = (fields.find? (kind == ·.1)).map (·.2) := by
  induction fields with
  | nil => rfl
  | cons field fields ih =>
    rw [List.lookup_cons, List.find?_cons]
    cases kind == field.1 with
    | true => rfl
    | false => exact ih

theorem Whole.operand!_eq {d : Decoded} (h : d.Whole) (kind : OperandKind) :
    d.operand! kind = .ok (d.operand? kind) := by
  rw [operand!, locate!_eq h, operand?, lookup_eq_find?]
  rfl

def offset! (d : Decoded) : Unguarded (Option Int) := do
  match ← d.operand! .offset with
  | some cell => return some (← d.instruction.offset! d.width cell)
  | none => return none

theorem Whole.offset!_eq {d : Decoded} (h : d.Whole) : d.offset! = .ok d.offset? := by
  rw [offset!, bind_eq (h.operand!_eq .offset), offset?]
  cases d.operand? .offset with
  | none => rfl
  | some cell =>
    dsimp only
    rw [bind_eq (d.instruction.offset!_eq d.width cell)]
    rfl

/-! ### Text -/

def operandText! (d : Decoded) (kind : OperandKind) (cell : Nat) : Unguarded String :=
  if kind = .offset then do return Numeral.withSign (← d.instruction.offset! d.width cell)
  else .ok (d.operandText kind cell)

def text! (d : Decoded) : Unguarded String :=
  if d.operands.isEmpty then .ok d.mnemonicText
  else do
    let operands ← d.fields.mapM fun (kind, cell) => d.operandText! kind cell
    return d.mnemonicText ++ " " ++ ", ".intercalate operands

theorem operandText!_eq (d : Decoded) (kind : OperandKind) (cell : Nat) :
    d.operandText! kind cell = .ok (d.operandText kind cell) := by
  rw [operandText!]
  split
  next h =>
    rw [h, bind_eq (d.instruction.offset!_eq d.width cell)]
    rfl
  next => rfl

theorem text!_eq (d : Decoded) : d.text! = .ok d.text := by
  rw [text!, text]
  split
  next => rfl
  next =>
    rw [bind_eq (mapM_eq fun field _ => d.operandText!_eq field.1 field.2)]
    rfl

end Decoded

/-! ### Decoding -/

namespace InstructionTable

def decode! (t : InstructionTable) (opcode : Byte) : Unguarded (Option Instruction) :=
  locate! (· == opcode) (t.rows.map (·.opcode)) t.rows

theorem decode!_eq (t : InstructionTable) (opcode : Byte) :
    t.decode! opcode = .ok (t.decode? opcode) := by
  have hzip : (t.rows.map (·.opcode)).zip t.rows = t.rows.map fun row => (row.opcode, row) := by
    rw [← List.zip_map', List.map_id']
  rw [decode!, locate!_eq (by rw [List.length_map]), hzip, List.find?_map, Option.map_map]
  exact congrArg Except.ok (Option.map_id' ..)

end InstructionTable

namespace InstructionSet

/-- The instruction at the start of `cells`. -/
def decode! (s : InstructionSet) (w : Width) (cells : Array Nat) : Refusable DecodeError Decoded :=
  match cells[0]? with
  | none => checked (.error (.truncated "" 1 0))
  | some first =>
    if first < 256 then do
      let opcode := BitVec.ofNat 8 first
      match ← s.table.decode! opcode with
      | none => checked (.error (.unknownOpcode opcode))
      | some i =>
        if i.size ≤ cells.size then return ⟨i, (← slice cells 1 i.size).toList, w⟩
        else checked (.error (.truncated i.mnemonic i.size cells.size))
    else checked (.error (.invalidCell first))

/-- To decode at an address is to decode what there is from the address on. -/
theorem decode!_eq (s : InstructionSet) (w : Width) (program : Array Nat) (address : Nat) :
    s.decode! w (program.extract address program.size) =
      checked (s.decodeAt w program address) := by
  have hsize : (program.extract address program.size).size = program.size - address := by
    rw [Array.size_extract, Nat.min_self]
  have hfirst : (program.extract address program.size)[0]? = program[address]? := by
    rw [Array.getElem?_extract, Nat.min_self, Nat.add_zero]
    split
    next => rfl
    next h => rw [Array.getElem?_eq_none (by omega)]
  rw [decode!, decodeAt, hfirst, hsize]
  cases hcell : program[address]? with
  | none => rfl
  | some first =>
    have hlt : address < program.size := (Array.getElem?_eq_some_iff.1 hcell).1
    dsimp only
    split
    next =>
      rw [lift_bind_eq (s.table.decode!_eq _)]
      cases s.table.decode? (BitVec.ofNat 8 first) with
      | none => rfl
      | some i =>
        have hpos : 1 ≤ i.size := Nat.le_add_right 1 _
        dsimp only
        by_cases h : address + i.size ≤ program.size
        · have hfits : i.size ≤ program.size - address := by omega
          rw [if_pos h, if_pos hfits, lift_bind_eq (slice_eq hpos (hsize ▸ hfits)),
            Array.extract_extract, Nat.min_eq_left h]
          rfl
        · rw [if_neg h, if_neg (by omega)]
    next => rfl

end InstructionSet

end Microcontroller
