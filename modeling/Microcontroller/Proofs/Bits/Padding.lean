import Microcontroller.Bits.Field
import Microcontroller.Proofs.Result
/-!
# The places left over in a field of bits

A field whose length is not a multiple of eight has places in its last unit that belong to no bit.
`BitField.Tidy` says that they are clear, and that there are as many units as the length needs. What
an operation does to the bits is said for all indexes at once, and that it keeps a field tidy is read
off from that at the indexes past the end.
-/

namespace Microcontroller.BitField

/-- A field of `len` bits with nothing set past its end. -/
structure Tidy (len : Nat) (f : BitField) : Prop where
  length : f.len = len
  units : f.units.size = unitsFor len
  padding : ∀ index, len ≤ index → f.bit index = false

variable {len : Nat} {f f' : BitField}

/-! ### Bytes -/

theorem getMsbD_place (i : Nat) {k : Nat} (hk : k < 8) :
    (place i).getMsbD k = decide (k = i % 8) := by
  have all : ∀ a < 8, ∀ b < 8, (0x80#8 >>> a).getMsbD b = decide (b = a) := by decide
  exact all (i % 8) (Nat.mod_lt _ (by decide)) k hk

theorem getMsbD_unitMask (len index : Nat) {k : Nat} (hk : k < 8) :
    (unitMask len index).getMsbD k = decide (8 * index + k < len) := by
  have all : ∀ used ≤ 8, ∀ b < 8, (~~~(0xFF#8 >>> used)).getMsbD b = decide (b < used) := by decide
  rw [unitMask, all _ (Nat.min_le_right _ _) k hk, decide_eq_decide]
  omega

/-! ### What operations do to the bits -/

theorem unit_eq (f : BitField) (index : Nat) : f.unit index =
    if index < f.units.size then .ok (f.units.getD index 0)
    else .error (.outOfBounds index f.units.size) := by
  by_cases h : index < f.units.size <;> simp [unit, h]

theorem bit_zero (len index : Nat) : (zero len).bit index = false := by
  simp only [bit, zero, Array.getD_eq_getD_getElem?, Array.getElem?_replicate]
  split <;> exact BitVec.getMsbD_zero

theorem bit_clear (f : BitField) (index : Nat) : f.clear.bit index = false := by
  simp only [bit, clear, Array.getD_eq_getD_getElem?, Array.getElem?_replicate]
  split <;> exact BitVec.getMsbD_zero

theorem bit_put (f : BitField) (index : Nat) (value : Bool) (i : Nat) :
    (f.put index value).bit i =
      if i = index ∧ index / 8 < f.units.size then value else f.bit i := by
  have hi : i % 8 < 8 := Nat.mod_lt _ (by decide)
  simp only [bit, put, Array.getD_eq_getD_getElem?, Array.getElem?_modify]
  -- Within the unit that is changed, bits are told apart by their places; no other unit is touched.
  by_cases hunit : index / 8 = i / 8
  · rw [if_pos hunit, ← hunit]
    by_cases hsize : index / 8 < f.units.size
    · have hplace : (i % 8 = index % 8) ↔ i = index := by omega
      simp only [Array.getElem?_eq_getElem hsize, Option.map_some, Option.getD_some, hsize, and_true]
      cases value
      · simp only [Bool.false_eq_true, if_false, BitVec.getMsbD_and, BitVec.getMsbD_not,
          getMsbD_place index hi, hi, decide_true, Bool.true_and, hplace]
        by_cases h : i = index <;> simp [h]
      · simp only [if_true, BitVec.getMsbD_or, getMsbD_place index hi, hplace]
        by_cases h : i = index <;> simp [h]
    · rw [Array.getElem?_eq_none (Nat.le_of_not_lt hsize), if_neg fun h => hsize h.2]
      rfl
  · rw [if_neg hunit, if_neg fun h => hunit (by rw [h.1])]

theorem bit_putUnit (f : BitField) (index : Nat) (value : Byte) (i : Nat) :
    (f.putUnit index value).bit i =
      if i / 8 = index ∧ index < f.units.size then value.getMsbD (i % 8) && decide (i < f.len)
      else f.bit i := by
  have hi : i % 8 < 8 := Nat.mod_lt _ (by decide)
  simp only [bit, putUnit, Array.getD_eq_getD_getElem?, Array.getElem?_modify]
  by_cases hunit : index = i / 8
  · subst hunit
    by_cases hsize : i / 8 < f.units.size
    · have hend : 8 * (i / 8) + i % 8 = i := by omega
      simp only [if_true, Array.getElem?_eq_getElem hsize, Option.map_some, Option.getD_some, hsize,
        and_true, BitVec.getMsbD_and, getMsbD_unitMask f.len (i / 8) hi, hend]
    · rw [if_pos rfl, Array.getElem?_eq_none (Nat.le_of_not_lt hsize), if_neg fun h => hsize h.2]
      rfl
  · rw [if_neg hunit, if_neg fun h => hunit h.1.symm]

/-- A field with the bits of these bytes, as far as they belong to it. -/
structure Loaded (bytes : List Byte) (f f' : BitField) : Prop where
  len : f'.len = f.len
  units : f'.units.size = f.units.size
  bit (i : Nat) : f'.bit i = ((bytes.getD (i / 8) 0).getMsbD (i % 8) && decide (i < f.len))

theorem loaded_of_loadBytes {bytes : List Byte} (h : f.loadBytes bytes = .ok f') :
    f.Loaded bytes f' := by
  rw [loadBytes] at h
  split at h <;> cases h
  next hsize =>
  refine ⟨rfl, by simp only [Array.size_mapIdx, List.size_toArray, hsize], fun i => ?_⟩
  have hplace : i % 8 < 8 := Nat.mod_lt _ (by decide)
  have hend : 8 * (i / 8) + i % 8 = i := Nat.div_add_mod i 8
  rw [bit, Array.getD_eq_getD_getElem?, Array.getElem?_mapIdx, List.getElem?_toArray,
    List.getD_eq_getElem?_getD]
  cases bytes[i / 8]? with
  | none =>
    have hzero : (0 : Byte).getMsbD (i % 8) = false := BitVec.getMsbD_zero
    rw [Option.map_none, Option.getD_none, hzero, Bool.false_and]
  | some value =>
    simp only [Option.map_some, Option.getD_some, BitVec.getMsbD_and,
      getMsbD_unitMask f.len (i / 8) hplace, hend]

/-! ### Tidiness -/

theorem zero_tidy (len : Nat) : (zero len).Tidy len :=
  ⟨rfl, Array.size_replicate, fun index _ => bit_zero len index⟩

/-- Every bit has a unit to be in. -/
theorem Tidy.unit_lt (h : f.Tidy len) {index : Nat} (hindex : index < len) :
    index / 8 < f.units.size := by
  rw [h.units, unitsFor]
  omega

theorem Tidy.clear (h : f.Tidy len) : f.clear.Tidy len :=
  ⟨h.length, Array.size_replicate.trans h.units, fun index _ => bit_clear f index⟩

theorem Tidy.put (h : f.Tidy len) {index : Nat} (hindex : index < len) (value : Bool) :
    (f.put index value).Tidy len where
  length := h.length
  units := Array.size_modify.trans h.units
  padding i hi := by
    rw [bit_put, if_neg (by omega), h.padding i hi]

theorem Tidy.set (h : f.Tidy len) {index : Nat} {value : Bool} (hf : f.set index value = .ok f') :
    f'.Tidy len := by
  rw [BitField.set] at hf
  split at hf
  next hlt =>
    cases hf
    exact h.put (h.length ▸ hlt) value
  next => cases hf

theorem Tidy.putUnit (h : f.Tidy len) (index : Nat) (value : Byte) :
    (f.putUnit index value).Tidy len where
  length := h.length
  units := Array.size_modify.trans h.units
  padding i hi := by
    rw [bit_putUnit, h.padding i hi, h.length, decide_eq_false (Nat.not_lt.2 hi), Bool.and_false,
      ite_self]

theorem Tidy.setUnit (h : f.Tidy len) {index : Nat} {value : Byte}
    (hf : f.setUnit index value = .ok f') : f'.Tidy len := by
  rw [BitField.setUnit] at hf
  split at hf <;> cases hf
  exact h.putUnit index value

theorem Tidy.loadBytes (h : f.Tidy len) {bytes : List Byte} (hf : f.loadBytes bytes = .ok f') :
    f'.Tidy len := by
  have hloaded := loaded_of_loadBytes hf
  refine ⟨hloaded.len.trans h.length, hloaded.units.trans h.units, fun i hi => ?_⟩
  rw [hloaded.bit, h.length, decide_eq_false (Nat.not_lt.2 hi), Bool.and_false]

/-! ### Loading -/

/-- Units of which the places left over by a field of `len` bits are cleared; they are the lowest of
the last unit. -/
def clearPadding (len : Nat) (units : List Byte) : List Byte :=
  let leftOver := 8 * units.length - len
  units.modify (units.length - 1) fun last => last >>> leftOver <<< leftOver

theorem and_not_shiftRight {used : Nat} (h : used ≤ 8) (unit : Byte) :
    unit &&& ~~~(0xFF#8 >>> used) = unit >>> (8 - used) <<< (8 - used) := by
  have all : ∀ used ≤ 8, ∀ unit : Byte,
      unit &&& ~~~(0xFF#8 >>> used) = unit >>> (8 - used) <<< (8 - used) := by decide +kernel
  exact all used h unit

/-- Only the last unit has places that do not belong to the field. -/
theorem mapIdx_unitMask {units : List Byte} (h : units.length = unitsFor len) :
    units.mapIdx (fun i unit => unit &&& unitMask len i) = clearPadding len units := by
  rw [unitsFor] at h
  refine List.ext_getElem? fun i => ?_
  rw [clearPadding, List.getElem?_mapIdx, List.getElem?_modify]
  by_cases hi : i < units.length
  · rw [List.getElem?_eq_getElem hi, Option.map_some, Option.map_eq_map, Option.map_some, unitMask,
      and_not_shiftRight (Nat.min_le_right _ _)]
    by_cases hlast : units.length - 1 = i
    · have hused : 8 - min (len - 8 * i) 8 = 8 * units.length - len := by omega
      rw [if_pos hlast, hused]
    · have hused : 8 - min (len - 8 * i) 8 = 0 := by omega
      rw [if_neg hlast, hused, BitVec.ushiftRight_zero, BitVec.shiftLeft_zero]
  · rw [List.getElem?_eq_none (Nat.le_of_not_lt hi)]
    rfl

/-- Where the units are full there is nothing to clear. -/
theorem clearPadding_of_full {units : List Byte} (h : 8 * units.length = len) :
    clearPadding len units = units := by
  simp only [clearPadding, h, Nat.sub_self, BitVec.ushiftRight_zero, BitVec.shiftLeft_zero]
  exact List.modify_id _ _

/-- A field of `len` bits with these units, as far as they belong to it. -/
def ofBytes (len : Nat) (bytes : List Byte) : BitField := ⟨len, (clearPadding len bytes).toArray⟩

theorem Tidy.loadBytes_ok_iff (h : f.Tidy len) {bytes : List Byte} :
    f.loadBytes bytes = .ok f' ↔ bytes.length = unitsFor len ∧ ofBytes len bytes = f' := by
  rw [BitField.loadBytes, h.units, h.length]
  split
  next hsize =>
    rw [List.mapIdx_toArray, mapIdx_unitMask hsize, Except.ok.injEq, ofBytes]
    exact (and_iff_right hsize).symm
  next hsize => exact iff_of_false nofun fun h => hsize h.1

theorem ofBytes_tidy {bytes : List Byte} (h : bytes.length = unitsFor len) :
    (ofBytes len bytes).Tidy len :=
  (zero_tidy len).loadBytes ((zero_tidy len).loadBytes_ok_iff.2 ⟨h, rfl⟩)

/-- No bit of a unit lies past the end of its field. -/
theorem Tidy.and_unitMask (h : f.Tidy len) {i : Nat} {unit : Byte} (hunit : f.units[i]? = some unit) :
    unit &&& unitMask len i = unit := by
  refine BitVec.eq_of_getMsbD_eq fun k hk => ?_
  rw [BitVec.getMsbD_and, getMsbD_unitMask len i hk]
  by_cases hend : 8 * i + k < len
  · rw [decide_eq_true hend, Bool.and_true]
  · have hbit := h.padding (8 * i + k) (Nat.le_of_not_lt hend)
    have hdiv : (8 * i + k) / 8 = i := by omega
    have hmod : (8 * i + k) % 8 = k := by omega
    rw [bit, hdiv, hmod, Array.getD_eq_getD_getElem?, hunit, Option.getD_some] at hbit
    rw [hbit, Bool.false_and]

/-- What is in a field already belongs to it. -/
theorem Tidy.ofBytes_units (h : f.Tidy len) : ofBytes len f.units.toList = f := by
  have hclear : clearPadding len f.units.toList = f.units.toList := by
    rw [← mapIdx_unitMask h.units]
    refine List.ext_getElem? fun i => ?_
    rw [List.getElem?_mapIdx, Array.getElem?_toList]
    cases hunit : f.units[i]? with
    | none => rfl
    | some unit => rw [Option.map_some, h.and_unitMask hunit]
  rw [ofBytes, hclear, Array.toArray_toList, ← h.length]

end Microcontroller.BitField
