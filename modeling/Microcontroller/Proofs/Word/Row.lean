import Microcontroller.Proofs.Result
import Microcontroller.Proofs.Word.Pattern
import Microcontroller.Word.Cells
/-!
# Rows keep their shape

A chip's rows have a width and a length that are fixed when the chip is built. `Cells.Fits` says that
a row has them and that no pattern in it is too long for its cell. Every operation on a row keeps
this, whatever it is asked to store: what is stored is cut down first.
-/

namespace Microcontroller.Cells

/-- An unsigned row of `len` words of width `w`, each with its pattern inside the width. -/
structure Fits (w : Width) (len : Nat) (c : Cells) : Prop where
  width : c.width = w
  unsigned : c.signed = false
  size : c.raw.size = len
  lt : ∀ r ∈ c.raw, r < w.capacity

variable {w : Width} {len : Nat} {c c' : Cells}

theorem zero_fits (w : Width) (len : Nat) : (zero w false len).Fits w len where
  width := rfl
  unsigned := rfl
  size := Array.size_replicate
  lt r hr := by
    rw [Array.eq_of_mem_replicate hr]
    exact w.capacity_pos

theorem Fits.clear (h : c.Fits w len) : c.clear.Fits w len where
  width := h.width
  unsigned := h.unsigned
  size := Array.size_replicate.trans h.size
  lt r hr := by
    rw [Array.eq_of_mem_replicate hr]
    exact w.capacity_pos

theorem Fits.getD_lt (h : c.Fits w len) (index : Nat) : c.raw.getD index 0 < w.capacity := by
  rw [Array.getD_eq_getD_getElem?]
  cases hr : c.raw[index]? with
  | none => exact w.capacity_pos
  | some r => exact h.lt r (Array.mem_of_getElem? hr)

/-- A member of a row with one cell changed is an old one or what the change made of one. -/
theorem mem_modify {xs : Array Nat} {index r : Nat} {f : Nat → Nat} (h : r ∈ xs.modify index f) :
    r ∈ xs ∨ ∃ old ∈ xs, f old = r := by
  obtain ⟨i, hi⟩ := Array.mem_iff_getElem?.1 h
  rw [Array.getElem?_modify] at hi
  split at hi
  · obtain ⟨old, hold, rfl⟩ := Option.map_eq_some_iff.1 hi
    exact Or.inr ⟨old, Array.mem_of_getElem? hold, rfl⟩
  · exact Or.inl (Array.mem_of_getElem? hi)

theorem Fits.modify (h : c.Fits w len) (index : Nat) {f : Nat → Nat}
    (hf : ∀ r < w.capacity, f r < w.capacity) :
    Fits w len { c with raw := c.raw.modify index f } where
  width := h.width
  unsigned := h.unsigned
  size := Array.size_modify.trans h.size
  lt r hr := by
    rcases mem_modify hr with hold | ⟨old, hold, rfl⟩
    · exact h.lt r hold
    · exact hf old (h.lt old hold)

theorem Fits.put (h : c.Fits w len) (index r : Nat) : (c.put index r).Fits w len :=
  h.modify index fun _ _ => h.width ▸ c.width.truncate_lt r

theorem Fits.update (h : c.Fits w len) {index : Nat} {f : Nat → Nat}
    (hf : ∀ r < w.capacity, f r < w.capacity) (hc : c.update index f = .ok c') :
    c'.Fits w len := by
  rw [Cells.update] at hc
  split at hc <;> cases hc
  exact h.modify index hf

theorem Fits.set (h : c.Fits w len) {index : Nat} {v : Int} (hc : c.set index v = .ok c') :
    c'.Fits w len :=
  h.update (fun _ _ => h.width ▸ c.width.wrap_lt v) hc

theorem Fits.setRaw (h : c.Fits w len) {index r : Nat} (hc : c.setRaw index r = .ok c') :
    c'.Fits w len :=
  h.update (fun _ _ => h.width ▸ c.width.truncate_lt r) hc

theorem Fits.load (h : c.Fits w len) {offset : Nat} {data : List Nat}
    (hc : c.load offset data = .ok c') : c'.Fits w len := by
  unfold Cells.load at hc
  dsimp only at hc
  split at hc <;> cases hc
  refine ⟨h.width, h.unsigned, Array.size_mapIdx.trans h.size, fun r hr => ?_⟩
  obtain ⟨i, hi, rfl⟩ := Array.mem_mapIdx.1 hr
  have hold := h.lt _ (Array.getElem_mem hi)
  split
  · exact hold
  · cases data.toArray[i - offset]? with
    | none => exact hold
    | some v => exact h.width ▸ c.width.truncate_lt v

/-! ### Reading after a put -/

theorem raw?_eq (c : Cells) (index : Nat) : c.raw? index =
    if index < c.size then .ok (c.raw.getD index 0) else .error (.outOfBounds index c.size) := by
  have hraw : c.raw.size = c.size := rfl
  by_cases h : index < c.size <;> simp [raw?, hraw, h]

theorem raw?_put (c : Cells) (index r i : Nat) :
    (c.put index r).raw[i]? =
      if index = i then c.raw[i]?.map fun _ => c.width.truncate r else c.raw[i]? :=
  Array.getElem?_modify

theorem getD_put_self {c : Cells} {index : Nat} (h : index < c.raw.size) (r : Nat) :
    (c.put index r).raw.getD index 0 = c.width.truncate r := by
  rw [Array.getD_eq_getD_getElem?, raw?_put, if_pos rfl, Array.getElem?_eq_getElem h]
  rfl

theorem getD_put_of_ne (c : Cells) {index i : Nat} (h : i ≠ index) (r : Nat) :
    (c.put index r).raw.getD i 0 = c.raw.getD i 0 := by
  rw [Array.getD_eq_getD_getElem?, raw?_put, if_neg h.symm, Array.getD_eq_getD_getElem?]

/-! ### Loading -/

/-- Loading puts each number of the data in its cell, cut down to a word, and leaves the cells before
and behind. -/
theorem raw?_load {offset : Nat} {data : List Nat} (h : c.load offset data = .ok c') (i : Nat) :
    c'.raw[i]? = if offset ≤ i ∧ i < offset + data.length then
      data[i - offset]?.map c.width.truncate else c.raw[i]? := by
  unfold Cells.load at h
  dsimp only at h
  split at h <;> cases h
  next hsize =>
  rw [List.size_toArray, Cells.size] at hsize
  rw [Array.getElem?_mapIdx, List.getElem?_toArray]
  by_cases hbefore : i < offset
  · rw [if_neg fun hin => Nat.not_le.2 hbefore hin.1]
    simp only [hbefore, if_true, Option.map_id']
  by_cases hbehind : i < offset + data.length
  · have hdata : i - offset < data.length := by omega
    have hcell : i < c.raw.size := by omega
    rw [if_pos ⟨Nat.le_of_not_lt hbefore, hbehind⟩, List.getElem?_eq_getElem hdata,
      Array.getElem?_eq_getElem hcell, Option.map_some, Option.map_some, if_neg hbefore]
    rfl
  · have hdata : data.length ≤ i - offset := by omega
    rw [if_neg fun hin => hbehind hin.2, List.getElem?_eq_none hdata]
    simp only [hbefore, if_false, Option.map_none, Option.getD_none, Option.map_id']

theorem load_ok_iff {offset : Nat} {data : List Nat} :
    (∃ c', c.load offset data = .ok c') ↔ offset + data.length ≤ c.size := by
  unfold Cells.load
  dsimp only [List.size_toArray]
  split
  next h => exact iff_of_true ⟨_, rfl⟩ h
  next h => exact iff_of_false nofun h

/-- An unsigned row with these words in it, each cut down to fit. -/
def ofList (w : Width) (data : List Nat) : Cells := ⟨w, false, (data.map w.truncate).toArray⟩

theorem ofList_fits (w : Width) {data : List Nat} (h : data.length = len) :
    (ofList w data).Fits w len where
  width := rfl
  unsigned := rfl
  size := by rw [ofList, List.size_toArray, List.length_map, h]
  lt r hr := by
    obtain ⟨x, -, rfl⟩ := List.mem_map.1 (List.mem_toArray.1 hr)
    exact w.truncate_lt x

/-- A row that is loaded from end to end holds the data and nothing else. -/
theorem Fits.load_all (h : c.Fits w len) {data : List Nat} (hdata : data.length = len) :
    c.load 0 data = .ok (ofList w data) := by
  have hsize : 0 + data.length ≤ c.size := by
    rw [hdata, Nat.zero_add]
    exact Nat.le_of_eq h.size.symm
  obtain ⟨c', hc'⟩ := load_ok_iff.2 hsize
  have hraw : c'.raw = (data.map w.truncate).toArray := by
    refine Array.ext_getElem? fun i => ?_
    have hi : (data.map w.truncate).toArray[i]? = data[i]?.map w.truncate := by
      rw [List.getElem?_toArray, List.getElem?_map]
    rw [hi, raw?_load hc', h.width]
    by_cases hlt : i < data.length
    · rw [if_pos (by omega), Nat.sub_zero]
    · have hsize : c.raw.size ≤ i := by rw [h.size]; omega
      rw [if_neg (by omega), Array.getElem?_eq_none hsize,
        List.getElem?_eq_none (Nat.le_of_not_lt hlt), Option.map_none]
  have hfits := h.load hc'
  rw [hc', ofList, ← hraw, ← hfits.width, ← hfits.unsigned]

/-- What is in a row already is not cut down any further. -/
theorem Fits.ofList_raw (h : c.Fits w len) : ofList w c.raw.toList = c := by
  have hmap : c.raw.toList.map w.truncate = c.raw.toList.map id :=
    List.map_congr_left fun r hr => Width.truncate_of_lt (h.lt r (Array.mem_toList_iff.1 hr))
  rw [ofList, hmap, List.map_id, Array.toArray_toList, ← h.width, ← h.unsigned]

end Microcontroller.Cells
