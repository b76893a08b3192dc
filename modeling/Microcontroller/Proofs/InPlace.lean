import Microcontroller.Chip.Basic
import Microcontroller.Proofs.Unguarded.Bits
/-!
# Loading in place

The library gives back what a load makes of a row, a field or a chip, or else an error. A machine writes
into what is there, one place after the other, and what it has written when it comes to an error stays
written. Here bulk loads are set down in this way, with an end that is past the last number of 64 bits
standing at that number. `AllOrNothing` says that such a load does what the library says, and that it
has written nothing if it is refused; it is passed on from a part to the whole that it is a part of.
-/

namespace Microcontroller

/-- A change in place. An error leaves the state as far changed as it was by then. -/
abbrev InPlace (ε σ α : Type) := EStateM ε σ α

/-- A load that is made where it fits, and is refused with nothing written where it does not. -/
structure AllOrNothing {ε σ : Type} (result : Except ε σ) (inPlace : InPlace ε σ Unit) (s : σ)
    (fits : Prop) (loaded : σ → Prop) (refusal : ε → Prop) : Prop where
  loads : fits → ∃ s', result = .ok s' ∧ inPlace s = .ok () s' ∧ loaded s'
  refuses : ¬ fits → ∃ e, result = .error e ∧ inPlace s = .error e s ∧ refusal e

/-- The error of an index that is not below a length. -/
def Error.IsPast (len : Nat) (e : Error) : Prop :=
  ∃ index, len ≤ index ∧ .outOfBounds index len = e

namespace InPlace

variable {α β ε σ τ : Type}

/-- A change that is known by its result, of which nothing is written if that is an error. -/
def ofResult (s : σ) : Except ε σ → EStateM.Result ε σ Unit
  | .ok s' => .ok () s'
  | .error e => .error e s

/-- A change of one part of a state. -/
def onPart (view : σ → τ) (update : σ → τ → σ) (change : InPlace ε τ Unit) :
    InPlace ε σ Unit := fun s =>
  match change (view s) with
  | .ok _ t => .ok () (update s t)
  | .error e t => .error e (update s t)

section

variable {view : σ → τ} {update : σ → τ → σ} {change : InPlace ε τ Unit} {s : σ} {t : τ}

theorem onPart_ok (h : change (view s) = .ok () t) :
    onPart view update change s = .ok () (update s t) := by
  rw [onPart, h]

theorem onPart_error {e : ε} (h : change (view s) = .error e t) :
    onPart view update change s = .error e (update s t) := by
  rw [onPart, h]

end

theorem getThe_bind (change : σ → InPlace ε σ α) (s : σ) :
    (getThe σ >>= change) s = change s s := rfl

theorem bind_ok {first : InPlace ε σ β} {next : β → InPlace ε σ α} {s t : σ} {b : β}
    (h : first s = .ok b t) : (first >>= next) s = next b t := by
  simp only [bind, EStateM.bind, h]

theorem bind_error {first : InPlace ε σ β} {next : β → InPlace ε σ α} {s t : σ} {e : ε}
    (h : first s = .error e t) : (first >>= next) s = .error e t := by
  simp only [bind, EStateM.bind, h]

/-- Changes that always succeed, one after the other. -/
theorem forM_modify (f : σ → α → σ) (xs : List α) (s : σ) :
    (xs.forM fun x => modify fun s => f s x : InPlace ε σ Unit) s = .ok () (xs.foldl f s) := by
  induction xs generalizing s with
  | nil => rfl
  | cons x xs ih => exact ih (f s x)

/-- One place after the other, each with a check of its own. -/
def each (step : σ → α → Except ε σ) (xs : List α) : InPlace ε σ Unit :=
  xs.forM fun x s =>
    match step s x with
    | .ok s' => .ok () s'
    | .error e => .error e s

theorem each_ok {step : σ → α → Except ε σ} {xs : List α} {s s' : σ}
    (h : xs.foldlM step s = .ok s') : each step xs s = .ok () s' := by
  induction xs generalizing s with
  | nil =>
    cases h
    rfl
  | cons x xs ih =>
    obtain ⟨t, hstep, hrest⟩ := bind_ok_iff.1 h
    refine (bind_ok (t := t) (b := ()) ?_).trans (ih hrest)
    simp only [hstep]

end InPlace

namespace AllOrNothing

variable {ε ε' σ τ : Type} {fits : Prop} {loaded : τ → Prop} {refusal : ε → Prop} {t : τ}
  {result : Except ε τ} {inPlace : InPlace ε τ Unit}

theorem imp {loaded' : τ → Prop} (h : AllOrNothing result inPlace t fits loaded refusal)
    (himp : ∀ t', loaded t' → loaded' t') : AllOrNothing result inPlace t fits loaded' refusal where
  loads hfits := by
    obtain ⟨t', hresult, hin, ht'⟩ := h.loads hfits
    exact ⟨t', hresult, hin, himp t' ht'⟩
  refuses := h.refuses

/-- In place the same is made as elsewhere, and where nothing is made the state stays. -/
theorem inPlace_eq (h : AllOrNothing result inPlace t fits loaded refusal) :
    inPlace t = InPlace.ofResult t result := by
  by_cases hfits : fits
  · obtain ⟨t', rfl, hin, -⟩ := h.loads hfits
    exact hin
  · obtain ⟨e, rfl, hin, -⟩ := h.refuses hfits
    exact hin

/-- A state is loaded all or nothing where this is so for the part that is loaded. -/
theorem onPart {view : σ → τ} {update : σ → τ → σ} {s : σ}
    (h : AllOrNothing result inPlace (view s) fits loaded refusal) (hsame : update s (view s) = s) :
    AllOrNothing (result.map (update s)) (InPlace.onPart view update inPlace) s fits
      (fun s' => ∃ t, loaded t ∧ update s t = s') refusal where
  loads hfits := by
    obtain ⟨t, hresult, hin, ht⟩ := h.loads hfits
    exact ⟨update s t, by rw [hresult]; rfl, InPlace.onPart_ok hin, t, ht, rfl⟩
  refuses hfits := by
    obtain ⟨e, hresult, hin, he⟩ := h.refuses hfits
    refine ⟨e, by rw [hresult]; rfl, ?_, he⟩
    rw [InPlace.onPart_error hin, hsame]

/-- The error of a load may be passed on as part of another. -/
theorem mapError (h : AllOrNothing result inPlace t fits loaded refusal) (f : ε → ε') :
    AllOrNothing (result.mapError f) (inPlace.adaptExcept f) t fits loaded
      (fun e' => ∃ e, refusal e ∧ f e = e') where
  loads hfits := by
    obtain ⟨t', hresult, hin, ht'⟩ := h.loads hfits
    exact ⟨t', by rw [hresult]; rfl, by rw [EStateM.adaptExcept, hin], ht'⟩
  refuses hfits := by
    obtain ⟨e, hresult, hin, he⟩ := h.refuses hfits
    exact ⟨f e, by rw [hresult]; rfl, by rw [EStateM.adaptExcept, hin], e, he, rfl⟩

end AllOrNothing

/-! ### Rows -/

namespace Cells

/-- Put the data in their cells, if the row does not end before them. -/
def loadInPlace (offset : Nat) (data : List Nat) : InPlace Error Cells Unit := do
  let c ← getThe Cells
  let stop := min (offset + data.length) (2 ^ 64 - 1)
  if c.size < stop then throw (.outOfBounds (stop - 1) c.size)
  else (data.zipIdx offset).forM fun cell => modify fun c => c.put cell.2 cell.1

/-- A row with the data in it from `offset` on, cut down to words, and all else as before. -/
structure Loaded (offset : Nat) (data : List Nat) (c c' : Cells) : Prop where
  width : c'.width = c.width
  signed : c'.signed = c.signed
  size : c'.size = c.size
  cell (i : Nat) : c'.raw[i]? =
    if offset ≤ i ∧ i < offset + data.length then data[i - offset]?.map (· % 2 ^ c.width.bits)
    else c.raw[i]?

variable {c c' : Cells} {offset : Nat} {data : List Nat}

theorem loaded_of_load (h : c.load offset data = .ok c') : c.Loaded offset data c' := by
  have hsame := c.eq_withRaw_of_load h
  have hsize : c'.size = c.size := by
    unfold load at h
    dsimp only at h
    split at h <;> cases h
    exact Array.size_mapIdx
  refine ⟨by rw [← hsame], by rw [← hsame], hsize, fun i => ?_⟩
  exact raw?_load h i

theorem foldl_put (data : List (Nat × Nat)) (c : Cells) :
    data.foldl (fun c cell => c.put cell.2 cell.1) c =
      ⟨c.width, c.signed, data.foldl
        (fun raw cell => raw.modify cell.2 fun _ => c.width.truncate cell.1) c.raw⟩ := by
  induction data generalizing c with
  | nil => rfl
  | cons cell rest ih => exact ih (c.put cell.2 cell.1)

/-- The data end up each in its cell. -/
theorem foldl_put_eq (h : c.load offset data = .ok c') :
    (data.zipIdx offset).foldl (fun c cell => c.put cell.2 cell.1) c = c' := by
  have hfits : offset + data.length ≤ c.size := load_ok_iff.1 ⟨c', h⟩
  rw [foldl_put, ← c.eq_withRaw_of_load h, mk.injEq]
  refine ⟨rfl, rfl, Array.ext_getElem? fun i => ?_⟩
  rw [Unguarded.getElem?_foldl_modify (fun _ x => c.width.truncate x), raw?_load h]
  split
  next hi =>
    have hcell : i < c.raw.size := Nat.lt_of_lt_of_le hi.2 hfits
    rw [Array.getElem?_eq_getElem hcell, Option.bind_some]
  next => rfl

theorem loadInPlace_of_load (h : c.load offset data = .ok c') :
    loadInPlace offset data c = .ok () c' := by
  have hfits : offset + data.length ≤ c.size := load_ok_iff.1 ⟨c', h⟩
  have hstop : ¬ c.size < min (offset + data.length) (2 ^ 64 - 1) := by omega
  have hmodify := InPlace.forM_modify (ε := Error) (fun c cell => put c cell.2 cell.1)
    (data.zipIdx offset) c
  rw [foldl_put_eq h] at hmodify
  rw [loadInPlace, InPlace.getThe_bind, if_neg hstop]
  exact hmodify

/-- A row is loaded all or nothing. Rows have fewer than `2 ^ 63` cells, so an end at the last number of
64 bits is past theirs. -/
theorem load_allOrNothing (hsize : c.size < 2 ^ 63) (offset : Nat) (data : List Nat) :
    AllOrNothing (c.load offset data) (loadInPlace offset data) c (offset + data.length ≤ c.size)
      (c.Loaded offset data) (Error.IsPast c.size) where
  loads hfits := by
    obtain ⟨c', hload⟩ := load_ok_iff.2 hfits
    exact ⟨c', hload, loadInPlace_of_load hload, loaded_of_load hload⟩
  refuses hfits := by
    have hstop : c.size < min (offset + data.length) (2 ^ 64 - 1) := by omega
    refine ⟨_, ?_, ?_, _, Nat.le_sub_one_of_lt hstop, rfl⟩
    · simp only [load, List.size_toArray, if_neg hfits]
    · rw [loadInPlace, InPlace.getThe_bind, if_pos hstop]
      rfl

end Cells

/-! ### Fields of bits -/

namespace BitField

/-- Replace the units one after the other, if there are as many bytes. -/
def loadBytesInPlace (bytes : List Byte) : InPlace Error BitField Unit := do
  let f ← getThe BitField
  if bytes.length ≠ f.units.size then throw (.outOfBounds bytes.length f.units.size)
  else InPlace.each (fun f byte => f.setUnit byte.2 byte.1) bytes.zipIdx

variable {f f' : BitField} {bytes : List Byte}

theorem loadBytesInPlace_of_loadBytes (h : f.loadBytes bytes = .ok f') :
    loadBytesInPlace bytes f = .ok () f' := by
  rw [loadBytes] at h
  split at h <;> cases h
  next hlength =>
  have hsteps : bytes.zipIdx.foldlM (fun f byte => f.setUnit byte.2 byte.1) f =
      .ok (bytes.zipIdx.foldl (fun f byte => f.putUnit byte.2 byte.1) f) := by
    refine Unguarded.foldlM_eq (P := fun f' => f'.units.size = f.units.size)
      (fun f' hf' byte hbyte => ?_) (fun f' hf' byte _ => Array.size_modify.trans hf') rfl
    have hlt : byte.2 < f'.units.size := by
      rw [hf', ← hlength]
      exact List.snd_lt_of_mem_zipIdx hbyte
    exact if_pos hlt
  rw [foldl_putUnit_eq hlength] at hsteps
  rw [loadBytesInPlace, InPlace.getThe_bind, if_neg (not_not_intro hlength)]
  exact InPlace.each_ok hsteps

theorem loadBytes_allOrNothing (f : BitField) (bytes : List Byte) :
    AllOrNothing (f.loadBytes bytes) (loadBytesInPlace bytes) f (bytes.length = f.units.size)
      (f.Loaded bytes) (fun e => .outOfBounds bytes.length f.units.size = e) where
  loads hlength := by
    have hload : f.loadBytes bytes = .ok _ := if_pos hlength
    exact ⟨_, hload, loadBytesInPlace_of_loadBytes hload, loaded_of_loadBytes hload⟩
  refuses hlength := by
    refine ⟨_, if_neg hlength, ?_, rfl⟩
    rw [loadBytesInPlace, InPlace.getThe_bind, if_pos hlength]
    rfl

end BitField

end Microcontroller
