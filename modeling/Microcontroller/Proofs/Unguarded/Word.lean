import Microcontroller.Proofs.Unguarded.Steps
import Microcontroller.Proofs.Word.Row
import Microcontroller.Proofs.Word.TwosComplement
/-!
# Words and rows without guards

Masks are made by shifting a one up and taking one off; a number is extended in sign by moving it to
the top of 64 bits and back; a cell of a row is read and written behind a check of its index, and a row
is loaded through the part of it that the data go to. All of the widths stay below the ones they are
shifted in, so none of this can go wrong, whatever the numbers are.
-/

namespace Microcontroller

open Unguarded

/-! ### Masks and signs -/

/-- The lowest `bits` bits of `size`. -/
def mask! (size bits : Nat) : Unguarded Nat :=
  if size ≤ bits then .ok (2 ^ size - 1) else do sub (← shiftLeft size 1 bits) 1

theorem mask_of_lt {size bits : Nat} (h : bits < size) :
    (do sub (← shiftLeft size 1 bits) 1) = .ok (2 ^ bits - 1) := by
  have hlt : 2 ^ bits < 2 ^ size := Nat.pow_lt_pow_right (by decide) h
  rw [bind_eq (shiftLeft_eq h 1), Nat.one_mul, Nat.mod_eq_of_lt hlt]
  exact sub_eq (Nat.two_pow_pos bits)

theorem mask!_eq {size bits : Nat} (h : bits ≤ size) : mask! size bits = .ok (2 ^ bits - 1) := by
  rw [mask!]
  split
  next hsize => rw [Nat.le_antisymm h hsize]
  next hsize => exact mask_of_lt (Nat.lt_of_not_le hsize)

/-- Shift a pattern of `bits` bits to the right, its top bit moving in. -/
def Unguarded.shiftRightSigned (bits x amount : Nat) : Unguarded Int :=
  if amount < bits then .ok (TwosComplement.decode bits x / (2 ^ amount : Nat))
  else .error (.shift amount bits)

/-- The integer that the lowest `bits` bits stand for. -/
def signExtend! (bits x : Nat) : Unguarded Int := do
  let amount ← sub 64 bits
  shiftRightSigned 64 (← shiftLeft 64 x amount) amount

theorem signExtend!_eq {bits : Nat} (hpos : 0 < bits) (h : bits ≤ 64) (x : Nat) :
    signExtend! bits x = .ok (TwosComplement.decode bits x) := by
  have hamount : 64 - bits < 64 := by omega
  have hdecode := TwosComplement.decode_mul_two_pow hpos x (64 - bits)
  have hone : ((2 ^ (64 - bits) : Nat) : Int) ≠ 0 := Int.ofNat_ne_zero.2 (Nat.two_pow_pos _).ne'
  rw [Nat.add_sub_cancel' h] at hdecode
  rw [signExtend!, bind_eq (sub_eq h), bind_eq (shiftLeft_eq hamount x), shiftRightSigned,
    if_pos hamount, TwosComplement.decode_mod, hdecode, Int.mul_ediv_cancel _ hone]

namespace Width

variable (w : Width)

theorem bits_le : w.bits ≤ 32 := by
  cases w <;> decide

theorem bits_le_64 : w.bits ≤ 64 := Nat.le_trans w.bits_le (by decide)

theorem halfBits_lt : w.halfBits < 32 := by
  cases w <;> decide

def halfMask! : Unguarded Nat := do sub (← shiftLeft 32 1 w.halfBits) 1

theorem halfMask!_eq : w.halfMask! = .ok (2 ^ w.halfBits - 1) := mask_of_lt w.halfBits_lt

def value! (signed : Bool) (raw : Nat) : Unguarded Int :=
  if signed then signExtend! w.bits raw else .ok raw

theorem value!_eq (signed : Bool) (raw : Nat) : w.value! signed raw = .ok (w.value signed raw) := by
  cases signed with
  | false => rfl
  | true => exact signExtend!_eq w.bits_pos w.bits_le_64 raw

def high! (r : Nat) : Unguarded Nat := shiftRight 32 r w.halfBits

theorem high!_eq (r : Nat) : w.high! r = .ok (w.high r) := shiftRight_eq w.halfBits_lt r

def low! (r : Nat) : Unguarded Nat := do return r &&& (← w.halfMask!)

theorem low!_eq (r : Nat) : w.low! r = .ok (w.low r) := by
  rw [low!, bind_eq w.halfMask!_eq, Nat.and_two_pow_sub_one_eq_mod]
  rfl

def withHigh! (r v : Nat) : Unguarded Nat := do
  let half ← w.halfMask!
  return (← shiftLeft 32 (v &&& half) w.halfBits) ||| (r &&& half)

theorem withHigh!_eq (r v : Nat) : w.withHigh! r v = .ok (w.withHigh r v) := by
  have hmod (x : Nat) : x % 2 ^ w.halfBits < 2 ^ w.halfBits := Nat.mod_lt _ (Nat.two_pow_pos _)
  have hlt : v % 2 ^ w.halfBits * 2 ^ w.halfBits < 2 ^ 32 := by
    calc v % 2 ^ w.halfBits * 2 ^ w.halfBits
        < 2 ^ w.halfBits * 2 ^ w.halfBits := Nat.mul_lt_mul_of_pos_right (hmod v) (Nat.two_pow_pos _)
      _ = 2 ^ (w.halfBits + w.halfBits) := (Nat.pow_add ..).symm
      _ ≤ 2 ^ 32 := Nat.pow_le_pow_right (by decide) (by cases w <;> decide)
  rw [withHigh!, bind_eq w.halfMask!_eq, Nat.and_two_pow_sub_one_eq_mod, Nat.and_two_pow_sub_one_eq_mod,
    bind_eq (shiftLeft_eq w.halfBits_lt _), Nat.mod_eq_of_lt hlt, Nat.mul_comm,
    ← Nat.two_pow_add_eq_or_of_lt (hmod r), Nat.mul_comm]
  rfl

/-- The bits of the lower half are taken out of `r`, and those of `v` put in. -/
def withLow! (r v : Nat) : Unguarded Nat := do
  let half ← w.halfMask!
  return (r ^^^ (r &&& half)) ||| (v &&& half)

theorem withLow!_eq (r v : Nat) : w.withLow! r v = .ok (w.withLow r v) := by
  have hmod (x : Nat) : x % 2 ^ w.halfBits < 2 ^ w.halfBits := Nat.mod_lt _ (Nat.two_pow_pos _)
  have hclear : r ^^^ (r % 2 ^ w.halfBits) = 2 ^ w.halfBits * (r / 2 ^ w.halfBits) := by
    refine Nat.eq_of_testBit_eq fun i => ?_
    rw [Nat.testBit_xor, Nat.testBit_mod_two_pow, Nat.testBit_two_pow_mul, Nat.testBit_div_two_pow]
    by_cases h : i < w.halfBits
    · rw [decide_eq_true h, Bool.true_and, Bool.xor_self, decide_eq_false (Nat.not_le.2 h),
        Bool.false_and]
    · have hle := Nat.le_of_not_lt h
      rw [decide_eq_false h, Bool.false_and, Bool.xor_false, decide_eq_true hle, Bool.true_and,
        Nat.sub_add_cancel hle]
  rw [withLow!, bind_eq w.halfMask!_eq, Nat.and_two_pow_sub_one_eq_mod, Nat.and_two_pow_sub_one_eq_mod,
    hclear, ← Nat.two_pow_add_eq_or_of_lt (hmod v), Nat.mul_comm]
  rfl

end Width

namespace Cells

variable (c : Cells)

/-- An index, if there is a cell there. -/
def check (index : Nat) : Except Error Nat :=
  if index < c.size then .ok index else .error (.outOfBounds index c.size)

def raw! (index : Nat) : Refusable Error Nat := do
  let i ← checked (c.check index)
  readAt c.raw i

theorem raw!_eq (index : Nat) : c.raw! index = checked (c.raw? index) := by
  rw [raw!, check, raw?]
  split
  next h =>
    have hcell : c.raw[index]? = some c.raw[index] := Array.getElem?_eq_getElem h
    rw [checked_ok_bind, lift_eq (readAt_eq hcell), hcell]
    rfl
  next h =>
    rw [Array.getElem?_eq_none (Nat.le_of_not_lt h)]
    rfl

/-- What `f` makes of the pattern at an index. -/
def view! {α : Type} (index : Nat) (f : Nat → Unguarded α) : Refusable Error α := do
  let r ← c.raw! index
  f r

theorem view!_eq {α : Type} (index : Nat) {f : Nat → Unguarded α} {g : Word → α}
    (hf : ∀ r, f r = .ok (g ⟨c.width, c.signed, r⟩)) :
    c.view! index f = checked ((c.word? index).map g) := by
  rw [view!, raw!_eq, word?]
  cases c.raw? index with
  | error e => rfl
  | ok r => exact lift_eq (hf r)

/-- Replace the pattern at an index by what `f` makes of it. -/
def update! (index : Nat) (f : Nat → Unguarded Nat) : Refusable Error Cells := do
  let i ← checked (c.check index)
  let r ← f (← readAt c.raw i)
  return { c with raw := ← modifyAt c.raw i fun _ => r }

theorem update!_eq (index : Nat) {f : Nat → Unguarded Nat} {g : Nat → Nat} (hf : ∀ r, f r = .ok (g r)) :
    c.update! index f = checked (c.update index g) := by
  rw [update!, check, update]
  split
  next h =>
    have hcell : c.raw[index]? = some c.raw[index] := Array.getElem?_eq_getElem h
    have hmodify : (c.raw.modify index fun _ => g c.raw[index]) = c.raw.modify index g := by
      refine Array.ext_getElem? fun i => ?_
      rw [Array.getElem?_modify, Array.getElem?_modify]
      split
      next heq => rw [← heq, hcell, Option.map_some, Option.map_some]
      next => rfl
    rw [checked_ok_bind, lift_bind_eq (readAt_eq hcell), lift_bind_eq (hf _),
      lift_bind_eq (modifyAt_eq h _), hmodify]
    rfl
  next => rfl

/-- Put a pattern at an index that is known to be there. -/
def put! (index r : Nat) : Unguarded Cells := do
  return { c with raw := ← modifyAt c.raw index fun _ => c.width.truncate r }

theorem Fits.put!_eq {c : Cells} {w : Width} {len index : Nat} (h : c.Fits w len) (hindex : index < len)
    (r : Nat) : c.put! index r = .ok (c.put index r) := by
  rw [put!, bind_eq (modifyAt_eq (h.size.symm ▸ hindex) _)]
  rfl

/-- Put `data` at `offset` and after: over the part of the row that begins there and is as long. -/
def load! (offset : Nat) (data : List Nat) : Refusable Error Cells :=
  let stop := offset + data.length
  if stop ≤ c.size then do
    let part ← slice c.raw offset stop
    let loaded := part.zipWith (fun _ r => c.width.truncate r) data.toArray
    return { c with raw := c.raw.extract 0 offset ++ loaded ++ c.raw.extract stop c.size }
  else checked (.error (.outOfBounds (min stop (2 ^ 64 - 1) - 1) c.size))

theorem eq_withRaw_of_load {c' : Cells} {offset : Nat} {data : List Nat}
    (h : c.load offset data = .ok c') : { c with raw := c'.raw } = c' := by
  unfold load at h
  dsimp only at h
  split at h <;> cases h
  rfl

theorem getElem?_splice {xs ys : Array Nat} {start stop : Nat} (hstop : start + ys.size = stop)
    (h : stop ≤ xs.size) (i : Nat) :
    (xs.extract 0 start ++ ys ++ xs.extract stop xs.size)[i]? =
      if start ≤ i ∧ i < stop then ys[i - start]? else xs[i]? := by
  have hsize : (xs.extract 0 start).size = start := by
    rw [Array.size_extract]
    omega
  rw [Array.getElem?_append, Array.getElem?_append, Array.size_append, hsize, hstop,
    Array.getElem?_extract, Array.getElem?_extract, Nat.zero_add, Nat.min_self, Nat.sub_zero]
  by_cases hbehind : stop ≤ i
  · have hout : ¬ (start ≤ i ∧ i < stop) := fun hin => Nat.not_lt.2 hbehind hin.2
    rw [if_neg (Nat.not_lt.2 hbehind), if_neg hout, Nat.add_sub_cancel' hbehind]
    split
    next => rfl
    next hend => rw [Array.getElem?_eq_none (by omega)]
  · rw [if_pos (Nat.lt_of_not_le hbehind)]
    by_cases hbefore : i < start
    · rw [if_pos hbefore, if_pos (by omega), if_neg (by omega)]
    · rw [if_neg hbefore, if_pos (by omega)]

theorem zipWith_toArray {xs : Array Nat} {data : List Nat} (h : xs.size = data.length) (f : Nat → Nat) :
    xs.zipWith (fun _ r => f r) data.toArray = (data.map f).toArray := by
  refine Array.ext_getElem? fun i => ?_
  rw [Array.getElem?_zipWith]
  by_cases hi : i < data.length
  · rw [Array.getElem?_eq_getElem (h ▸ hi), List.getElem?_toArray, List.getElem?_eq_getElem hi,
      List.getElem?_toArray, List.getElem?_map, List.getElem?_eq_getElem hi]
    rfl
  · have hend : (data.map f).toArray.size ≤ i := by
      rw [List.size_toArray, List.length_map]
      exact Nat.le_of_not_lt hi
    rw [Array.getElem?_eq_none (h ▸ Nat.le_of_not_lt hi), Array.getElem?_eq_none hend]

theorem load!_eq (offset : Nat) (data : List Nat) :
    c.load! offset data = checked (c.load offset data) := by
  by_cases h : offset + data.length ≤ c.size
  · obtain ⟨c', hc'⟩ := load_ok_iff.2 h
    have hpart : (c.raw.extract offset (offset + data.length)).size = data.length := by
      have hsize : offset + data.length ≤ c.raw.size := h
      rw [Array.size_extract, Nat.min_eq_left hsize, Nat.add_sub_cancel_left]
    have hraw : c.raw.extract 0 offset ++ (data.map c.width.truncate).toArray ++
        c.raw.extract (offset + data.length) c.size = c'.raw := by
      have hlength : offset + (data.map c.width.truncate).toArray.size = offset + data.length := by
        rw [List.size_toArray, List.length_map]
      refine Array.ext_getElem? fun i => (getElem?_splice hlength h i).trans ?_
      rw [raw?_load hc', List.getElem?_toArray, List.getElem?_map]
    rw [load!, if_pos h, lift_bind_eq (slice_eq (Nat.le_add_right ..) h), zipWith_toArray hpart]
    dsimp only
    rw [hraw, hc', c.eq_withRaw_of_load hc']
    rfl
  · simp only [load!, load, List.size_toArray, if_neg h]

/-! ### Everything a row can be asked -/

def high! (index : Nat) : Refusable Error Nat := c.view! index c.width.high!

def low! (index : Nat) : Refusable Error Nat := c.view! index c.width.low!

def value! (index : Nat) : Refusable Error Int := c.view! index (c.width.value! c.signed)

def set! (index : Nat) (v : Int) : Refusable Error Cells :=
  c.update! index fun _ => .ok (c.width.wrap v)

def setRaw! (index r : Nat) : Refusable Error Cells :=
  c.update! index fun _ => .ok (c.width.truncate r)

def setHigh! (index v : Nat) : Refusable Error Cells := c.update! index (c.width.withHigh! · v)

def setLow! (index v : Nat) : Refusable Error Cells := c.update! index (c.width.withLow! · v)

/-- Nothing that a row is asked takes a misstep. -/
structure Sound : Prop where
  raw (index : Nat) : c.raw! index = checked (c.raw? index)
  value (index : Nat) : c.value! index = checked ((c.word? index).map Word.get)
  high (index : Nat) : c.high! index = checked ((c.word? index).map Word.high)
  low (index : Nat) : c.low! index = checked ((c.word? index).map Word.low)
  set (index : Nat) (v : Int) : c.set! index v = checked (c.set index v)
  setRaw (index r : Nat) : c.setRaw! index r = checked (c.setRaw index r)
  setHigh (index v : Nat) : c.setHigh! index v = checked (c.setHigh index v)
  setLow (index v : Nat) : c.setLow! index v = checked (c.setLow index v)
  load (offset : Nat) (data : List Nat) : c.load! offset data = checked (c.load offset data)

theorem sound : c.Sound where
  raw := c.raw!_eq
  value index := c.view!_eq index (c.width.value!_eq c.signed)
  high index := c.view!_eq index c.width.high!_eq
  low index := c.view!_eq index c.width.low!_eq
  set index _ := c.update!_eq index fun _ => rfl
  setRaw index _ := c.update!_eq index fun _ => rfl
  setHigh index v := c.update!_eq index (c.width.withHigh!_eq · v)
  setLow index v := c.update!_eq index (c.width.withLow!_eq · v)
  load := c.load!_eq

end Cells

end Microcontroller
