import Microcontroller.Bits.Cursor
import Microcontroller.Proofs.Bits.Padding
import Microcontroller.Proofs.Unguarded.Word
/-!
# Fields of bits without guards

What is asked of a field is checked against its length in bits, and then taken from its units, so all
hangs on there being a unit for every bit. A tidy field has exactly as many units as its bits need:
enough for every bit, and none that begins past the last.
-/

namespace Microcontroller

open Unguarded

namespace BitField

variable {len index : Nat}

/-! ### Single bits -/

/-- The unit whose only one is at the place of bit `index`. -/
def place! (index : Nat) : Unguarded Byte := do
  return BitVec.ofNat 8 (← shiftRight 8 0x80 (index % 8))

theorem place!_eq (index : Nat) : place! index = .ok (place index) := by
  have all : ∀ a < 8, BitVec.ofNat 8 (0x80 / 2 ^ a) = 0x80#8 >>> a := by decide
  have hplace : index % 8 < 8 := Nat.mod_lt _ (by decide)
  rw [place!, bind_eq (shiftRight_eq hplace _), all _ hplace]
  rfl

section

variable (f : BitField)

def bit! (index : Nat) : Unguarded Bool := do
  let unit ← readAt f.units (index / 8)
  return unit &&& (← place! index) != 0

/-- An index, if there is a bit there. -/
def check (index : Nat) : Except Error Nat :=
  if index < f.len then .ok index else .error (.outOfBounds index f.len)

def get! (index : Nat) : Refusable Error Bool := do
  let i ← checked (f.check index)
  f.bit! i

def put! (index : Nat) (value : Bool) : Unguarded BitField := do
  let place ← place! index
  return { f with units := ← modifyAt f.units (index / 8) fun unit =>
    if value then unit ||| place else unit &&& ~~~place }

def set! (index : Nat) (value : Bool) : Refusable Error BitField := do
  let i ← checked (f.check index)
  f.put! i value

end

variable {f : BitField}

theorem and_place_ne_zero (unit : Byte) (index : Nat) :
    (unit &&& place index != 0) = unit.getMsbD (index % 8) := by
  have hplace : index % 8 < 8 := Nat.mod_lt _ (by decide)
  cases hbit : unit.getMsbD (index % 8) with
  | true =>
    refine bne_iff_ne.2 fun hzero => ?_
    have hmsb : (unit &&& place index).getMsbD (index % 8) = false := by
      rw [hzero]
      exact BitVec.getMsbD_zero
    rw [BitVec.getMsbD_and, hbit, getMsbD_place index hplace, decide_eq_true rfl] at hmsb
    cases hmsb
  | false =>
    have hzero : unit &&& place index = 0 := by
      refine BitVec.eq_of_getMsbD_eq fun k hk => ?_
      rw [BitVec.getMsbD_and, getMsbD_place index hk]
      refine Eq.trans ?_ BitVec.getMsbD_zero.symm
      by_cases h : k = index % 8
      · rw [h, hbit, Bool.false_and]
      · rw [decide_eq_false h, Bool.and_false]
    rw [hzero]
    rfl

theorem bit!_eq (h : index / 8 < f.units.size) : f.bit! index = .ok (f.bit index) := by
  rw [bit!, bind_eq (readAt_getD h 0), bind_eq (place!_eq index), and_place_ne_zero]
  rfl

/-- The length alone would not do. -/
example : get! ⟨9, #[0]⟩ 8 = .error (.misstep (.index 1 1)) := rfl

theorem put!_eq (h : index / 8 < f.units.size) (value : Bool) :
    f.put! index value = .ok (f.put index value) := by
  rw [put!, bind_eq (place!_eq index), bind_eq (modifyAt_eq h _)]
  rfl

theorem Tidy.get!_eq (h : f.Tidy len) (index : Nat) : f.get! index = checked (f.get index) := by
  rw [get!, check, BitField.get]
  split
  next hlt => exact lift_eq (bit!_eq (h.unit_lt (h.length ▸ hlt)))
  next => rfl

theorem Tidy.set!_eq (h : f.Tidy len) (index : Nat) (value : Bool) :
    f.set! index value = checked (f.set index value) := by
  rw [set!, check, BitField.set]
  split
  next hlt => exact lift_eq (put!_eq (h.unit_lt (h.length ▸ hlt)) value)
  next => rfl

/-! ### Units -/

/-- The places of unit `index` that belong to a field of `len` bits. -/
def unitMask! (len index : Nat) : Unguarded Byte := do
  return ~~~(0xFF#8 >>> min (← sub len (8 * index)) 8)

theorem unitMask!_eq (h : index < unitsFor len) : unitMask! len index = .ok (unitMask len index) := by
  have hbegin : 8 * index ≤ len := by
    rw [unitsFor] at h
    omega
  rw [unitMask!, bind_eq (sub_eq hbegin)]
  rfl

section

variable (f : BitField)

def putUnit! (index : Nat) (value : Byte) : Unguarded BitField := do
  let mask ← unitMask! f.len index
  return { f with units := ← modifyAt f.units index fun _ => value &&& mask }

def setUnit! (index : Nat) (value : Byte) : Refusable Error BitField :=
  if index < f.units.size then f.putUnit! index value
  else checked (.error (.outOfBounds index f.units.size))

/-- Replace the units by the bytes, one after the other. -/
def loadBytes! (bytes : List Byte) : Refusable Error BitField :=
  if bytes.length = f.units.size then
    bytes.zipIdx.foldlM (fun f byte => f.setUnit! byte.2 byte.1) f
  else checked (.error (.outOfBounds bytes.length f.units.size))

/-- The units as one number of 64 bits, which is moved up by a byte for each of them. -/
def value! : Unguarded Nat :=
  f.units.toList.foldlM (fun acc unit => do return (← shiftLeft 64 acc 8) ||| unit.toNat) 0

def toWord! : Refusable Error Word :=
  match Width.fitting? f.len with
  | some width => do
    let shift ← sub width.bits (8 * f.units.size)
    let raw ← shiftLeft 32 ((← f.value!) % 2 ^ 32) shift
    return (Word.zero width false).setRaw raw
  | none => checked (.error (.unsupportedWidth f.len))

end

theorem Tidy.putUnit!_eq (h : f.Tidy len) (hindex : index < f.units.size) (value : Byte) :
    f.putUnit! index value = .ok (f.putUnit index value) := by
  have hmask : index < unitsFor f.len := by rwa [h.length, ← h.units]
  rw [putUnit!, bind_eq (unitMask!_eq hmask), bind_eq (modifyAt_eq hindex _)]
  rfl

theorem Tidy.setUnit!_eq (h : f.Tidy len) (index : Nat) (value : Byte) :
    f.setUnit! index value = checked (f.setUnit index value) := by
  rw [setUnit!, BitField.setUnit]
  split
  next hlt => exact lift_eq (h.putUnit!_eq hlt value)
  next => rfl

theorem foldl_putUnit (bytes : List (Byte × Nat)) (f : BitField) :
    bytes.foldl (fun f byte => f.putUnit byte.2 byte.1) f =
      ⟨f.len, bytes.foldl
        (fun units byte => units.modify byte.2 fun _ => byte.1 &&& unitMask f.len byte.2) f.units⟩ := by
  induction bytes generalizing f with
  | nil => rfl
  | cons byte rest ih => exact ih (f.putUnit byte.2 byte.1)

/-- The bytes end up each in its unit. -/
theorem foldl_putUnit_eq {bytes : List Byte} (h : bytes.length = f.units.size) :
    bytes.zipIdx.foldl (fun f byte => f.putUnit byte.2 byte.1) f =
      { f with units := bytes.toArray.mapIdx fun i value => value &&& unitMask f.len i } := by
  rw [foldl_putUnit, mk.injEq]
  refine ⟨rfl, Array.ext_getElem? fun i => ?_⟩
  have hbytes : bytes.toArray[i]? = bytes[i]? := List.getElem?_toArray
  rw [getElem?_foldl_modify (fun i byte => byte &&& unitMask f.len i), Array.getElem?_mapIdx,
    hbytes, Nat.zero_add, Nat.sub_zero]
  by_cases hi : i < bytes.length
  · rw [if_pos ⟨Nat.zero_le i, hi⟩, Array.getElem?_eq_getElem (h ▸ hi)]
    rfl
  · have hend : f.units.size ≤ i := h ▸ Nat.le_of_not_lt hi
    rw [if_neg fun hin => hi hin.2, List.getElem?_eq_none (Nat.le_of_not_lt hi),
      Array.getElem?_eq_none hend]
    rfl

theorem Tidy.loadBytes!_eq (h : f.Tidy len) (bytes : List Byte) :
    f.loadBytes! bytes = checked (f.loadBytes bytes) := by
  rw [loadBytes!, BitField.loadBytes]
  split
  next hlength =>
    have hsteps : bytes.zipIdx.foldlM (fun f byte => f.setUnit! byte.2 byte.1) f =
        .ok (bytes.zipIdx.foldl (fun f byte => f.putUnit byte.2 byte.1) f) := by
      refine foldlM_eq (P := (·.Tidy len)) (fun f' h' byte hbyte => ?_)
        (fun f' h' byte _ => h'.putUnit _ _) h
      have hlt : byte.2 < f'.units.size := by
        rw [h'.units, ← h.units, ← hlength]
        exact List.snd_lt_of_mem_zipIdx hbyte
      rw [setUnit!, if_pos hlt]
      exact lift_eq (h'.putUnit!_eq hlt byte.1)
    rw [hsteps, foldl_putUnit_eq hlength]
    rfl
  next => rfl

theorem value!_eq (f : BitField) : f.value! = .ok f.value := by
  have hstep (acc : Nat) (unit : Byte) :
      (do return (← shiftLeft 64 acc 8) ||| unit.toNat) =
        (.ok ((acc * 256 + unit.toNat) % 2 ^ 64) : Unguarded Nat) := by
    have hunit : unit.toNat < 2 ^ 8 := unit.isLt
    have hmoved : acc * 2 ^ 8 % 2 ^ 64 = 2 ^ 8 * (acc % 2 ^ 56) := by omega
    have hsum : 2 ^ 8 * (acc % 2 ^ 56) + unit.toNat = (acc * 256 + unit.toNat) % 2 ^ 64 := by omega
    rw [bind_eq (shiftLeft_eq (by decide) acc), hmoved, ← Nat.two_pow_add_eq_or_of_lt hunit, hsum]
    rfl
  rw [value!, value, ← Array.foldl_toList]
  exact foldlM_eq (P := fun _ => True) (fun acc _ unit _ => hstep acc unit)
    (fun _ _ _ _ => trivial) trivial

/-- A width that is chosen for a field has room for all of its units, and is not far too wide. -/
theorem unitsFor_of_fitting? {n : Nat} {width : Width} (h : Width.fitting? n = some width) :
    8 * unitsFor n ≤ width.bits ∧ width.bits - 8 * unitsFor n < 32 := by
  rw [unitsFor]
  unfold Width.fitting? at h
  split at h
  next => cases h; simp only [Width.bits]; omega
  split at h
  next => cases h; simp only [Width.bits]; omega
  split at h
  next => cases h; simp only [Width.bits]; omega
  next => cases h

theorem Tidy.toWord!_eq (h : f.Tidy len) : f.toWord! = checked f.toWord := by
  rw [toWord!, toWord]
  cases hwidth : Width.fitting? f.len with
  | none => rfl
  | some width =>
    obtain ⟨hunits, hshift⟩ := unitsFor_of_fitting? hwidth
    rw [h.length, ← h.units] at hunits hshift
    dsimp only
    rw [lift_bind_eq (sub_eq hunits), lift_bind_eq f.value!_eq, lift_bind_eq (shiftLeft_eq hshift _)]
    have hdvd : width.capacity ∣ 2 ^ 32 := Nat.pow_dvd_pow 2 width.bits_le
    have hraw (r : Nat) : (Word.zero width false).setRaw (r % 2 ^ 32) =
        (Word.zero width false).setRaw r :=
      congrArg (Word.mk width false) (Nat.mod_mod_of_dvd r hdvd)
    rw [hraw]
    rfl

end BitField

/-! ### Reading from both ends -/

namespace BitCursor

section

variable (c : BitCursor)

def remaining! : Unguarded Nat := sub c.back c.front

def pull! : Side → Unguarded (Option Bool × BitCursor)
  | .front =>
    if c.front < c.back then do return (some (← c.field.bit! c.front), { c with front := c.front + 1 })
    else .ok (none, c)
  | .back =>
    if c.front < c.back then do
      let back ← sub c.back 1
      return (some (← c.field.bit! back), { c with back })
    else .ok (none, c)

end

def pulls! (c : BitCursor) : List Side → Unguarded (List (Option Bool × Nat))
  | [] => .ok []
  | side :: sides => do
    let (bit, c) ← c.pull! side
    let remaining ← c.remaining!
    return (bit, remaining) :: (← c.pulls! sides)

/-- The stretch that is left is one, and lies in the field. -/
structure Inside (c : BitCursor) : Prop where
  ordered : c.front ≤ c.back
  units : ∀ i < c.back, i / 8 < c.field.units.size

variable {c : BitCursor}

theorem Inside.pull (h : c.Inside) (side : Side) :
    c.pull! side = .ok (c.pull side) ∧ (c.pull side).2.Inside := by
  cases side with
  | front =>
    rw [pull!, BitCursor.pull, next]
    split
    next hlt => exact ⟨bind_eq (BitField.bit!_eq (h.units _ hlt)) _, hlt, h.units⟩
    next => exact ⟨rfl, h⟩
  | back =>
    rw [pull!, BitCursor.pull, nextBack]
    split
    next hlt =>
      have hlast : c.back - 1 < c.back := by omega
      refine ⟨?_, Nat.le_sub_one_of_lt hlt, fun i hi => h.units i (Nat.lt_trans hi hlast)⟩
      rw [bind_eq (sub_eq (by omega)), bind_eq (BitField.bit!_eq (h.units _ hlast))]
      rfl
    next => exact ⟨rfl, h⟩

theorem Inside.pulls (h : c.Inside) (sides : List Side) : c.pulls! sides = .ok (c.pulls sides) := by
  induction sides generalizing c with
  | nil => rfl
  | cons side sides ih =>
    obtain ⟨hpull, hnext⟩ := h.pull side
    rw [pulls!, bind_eq hpull]
    dsimp only
    rw [remaining!, bind_eq (sub_eq hnext.ordered), bind_eq (ih hnext)]
    rfl

end BitCursor

/-! ### Everything a field can be asked -/

namespace BitField

variable {len : Nat} {f : BitField}

/-- Nothing that a field is asked takes a misstep. -/
structure Sound (f : BitField) : Prop where
  get (index : Nat) : f.get! index = checked (f.get index)
  set (index : Nat) (value : Bool) : f.set! index value = checked (f.set index value)
  setUnit (index : Nat) (value : Byte) : f.setUnit! index value = checked (f.setUnit index value)
  loadBytes (bytes : List Byte) : f.loadBytes! bytes = checked (f.loadBytes bytes)
  value : f.value! = .ok f.value
  toWord : f.toWord! = checked f.toWord
  pulls (sides : List BitCursor.Side) :
    (BitCursor.start f).pulls! sides = .ok ((BitCursor.start f).pulls sides)

theorem Tidy.inside (h : f.Tidy len) : (BitCursor.start f).Inside :=
  ⟨Nat.zero_le _, fun _ hi => h.unit_lt (h.length ▸ hi)⟩

theorem Tidy.sound (h : f.Tidy len) : f.Sound where
  get := h.get!_eq
  set := h.set!_eq
  setUnit := h.setUnit!_eq
  loadBytes := h.loadBytes!_eq
  value := f.value!_eq
  toWord := h.toWord!_eq
  pulls := h.inside.pulls

end BitField

end Microcontroller
