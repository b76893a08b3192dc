import Mathlib.Data.Nat.Digits.Lemmas
import Microcontroller.Proofs.Bits.Cursor
import Microcontroller.Proofs.Bits.Value
import Microcontroller.Proofs.InPlace
/-!
# A field as a sequence of bits

A field holds a sequence of bits and nothing besides: its units are filled up with clear places. So each
call that changes a field is a change of single bits, said index by index, and whatever can be read of a
field, bit by bit, in units, in order or as a number, is read off the same sequence. Fields with the same
bits are the same.
-/

namespace Microcontroller

namespace BitField

/-- Write a bit, if the field has it. -/
def setInPlace (index : Nat) (value : Bool) : InPlace Error BitField Unit := do
  let f ← getThe BitField
  if index < f.len then modify (·.put index value) else throw (.outOfBounds index f.len)

/-- Write a unit, if the field has it. -/
def setUnitInPlace (index : Nat) (value : Byte) : InPlace Error BitField Unit := do
  let f ← getThe BitField
  if index < f.units.size then modify (·.putUnit index value)
  else throw (.outOfBounds index f.units.size)

end BitField

namespace Width

theorem fitting?_eq_none_iff {n : Nat} : fitting? n = none ↔ 32 < n := by
  unfold fitting?
  split
  · exact iff_of_false nofun (by omega)
  split
  · exact iff_of_false nofun (by omega)
  split
  · exact iff_of_false nofun (by omega)
  · exact iff_of_true rfl (by omega)

/-- The width that is chosen has room, and no narrower one has. -/
theorem isLeast_of_fitting? {n : Nat} {w : Width} (h : fitting? n = some w) :
    n ≤ w.bits ∧ ∀ w' : Width, n ≤ w'.bits → w.bits ≤ w'.bits := by
  unfold fitting? at h
  split at h
  next h8 =>
    cases h
    exact ⟨h8, fun w' _ => by cases w' <;> decide⟩
  split at h
  next h8 h16 =>
    cases h
    refine ⟨h16, fun w' hw' => ?_⟩
    cases w' with
    | w8 => exact absurd hw' h8
    | w16 | w32 => decide
  split at h
  next h8 h16 h32 =>
    cases h
    refine ⟨h32, fun w' hw' => ?_⟩
    cases w' with
    | w8 => exact absurd hw' h8
    | w16 => exact absurd hw' h16
    | w32 => exact Nat.le_refl _
  next => cases h

end Width

/-- The calls that change a field. -/
inductive BitCall where
  | set (index : Nat) (value : Bool)
  | clearBit (index : Nat)
  | clear
  | setUnit (index : Nat) (value : Byte)
  | loadBytes (bytes : List Byte)

namespace BitCall

open BitField (unitsFor)

/-- What a call asks of a field of `len` bits: that it has the bit, or the unit, or as many units. -/
def check (len : Nat) : BitCall → Except Error Unit
  | set index _ | clearBit index => if index < len then .ok () else .error (.outOfBounds index len)
  | clear => .ok ()
  | setUnit index _ =>
    if index < unitsFor len then .ok () else .error (.outOfBounds index (unitsFor len))
  | loadBytes bytes =>
    if bytes.length = unitsFor len then .ok ()
    else .error (.outOfBounds bytes.length (unitsFor len))

/-- The value that a call gives to the bit at an index, if it gives it one. -/
def assigned : BitCall → Nat → Option Bool
  | set index value, i => if i = index then some value else none
  | clearBit index, i => if i = index then some false else none
  | clear, _ => some false
  | setUnit index value, i => if i / 8 = index then some (value.getMsbD (i % 8)) else none
  | loadBytes bytes, i => some ((bytes.getD (i / 8) 0).getMsbD (i % 8))

/-- A sequence of bits with the values that a call gives. -/
def assign (call : BitCall) (bits : List Bool) : List Bool :=
  bits.mapIdx fun i b => (call.assigned i).getD b

/-- A sequence of bits after a call; one that fails leaves it as it was. -/
def update (bits : List Bool) (call : BitCall) : List Bool :=
  match call.check bits.length with
  | .ok () => call.assign bits
  | .error _ => bits

/-- The answer of a field to a call. -/
def answer (f : BitField) : BitCall → Except Error BitField
  | set index value => f.set index value
  | clearBit index => f.clearBit index
  | clear => .ok f.clear
  | setUnit index value => f.setUnit index value
  | loadBytes bytes => f.loadBytes bytes

/-- A call on a field that stays where it is, so that a failing one leaves what it has written. -/
def inPlace : BitCall → InPlace Error BitField Unit
  | set index value => BitField.setInPlace index value
  | clearBit index => BitField.setInPlace index false
  | clear => modify BitField.clear
  | setUnit index value => BitField.setUnitInPlace index value
  | loadBytes bytes => BitField.loadBytesInPlace bytes

theorem length_update (bits : List Bool) (call : BitCall) : (call.update bits).length = bits.length := by
  rw [update]
  split
  · exact List.length_mapIdx
  · rfl

end BitCall

namespace BitField

/-- The field as a call leaves it, whether or not it fails. -/
def after (f : BitField) (call : BitCall) : BitField :=
  match call.inPlace f with
  | .ok _ f' | .error _ f' => f'

/-- The field holds these bits, and nothing where it has none. -/
structure Represents (f : BitField) (bits : List Bool) : Prop where
  tidy : f.Tidy bits.length
  bit (i : Nat) : f.bit i = bits.getD i false

variable {f f' : BitField} {bits bits' : List Bool} {call : BitCall} {len : Nat}

/-! ### Changes -/

theorem zero_represents (len : Nat) : (zero len).Represents (List.replicate len false) where
  tidy := by
    rw [List.length_replicate]
    exact zero_tidy len
  bit i := by
    rw [bit_zero, List.getD_eq_getElem?_getD, List.getElem?_replicate]
    split <;> rfl

/-- It is enough to know the bits that there are. -/
theorem Represents.assign (h : f.Represents bits) (hf' : f'.Tidy bits.length)
    (hbit : ∀ i < bits.length, f'.bit i = (call.assigned i).getD (f.bit i)) :
    f'.Represents (call.assign bits) where
  tidy := by rwa [BitCall.assign, List.length_mapIdx]
  bit i := by
    rw [BitCall.assign, List.getD_eq_getElem?_getD, List.getElem?_mapIdx]
    by_cases hi : i < bits.length
    · rw [hbit i hi, h.bit, List.getD_eq_getElem?_getD, List.getElem?_eq_getElem hi]
      rfl
    · rw [hf'.padding i (Nat.le_of_not_lt hi), List.getElem?_eq_none (Nat.le_of_not_lt hi)]
      rfl

/-- A call that makes one check is made as a whole or not at all. -/
theorem Represents.of_check (h : f.Represents bits) {inPlace : InPlace Error BitField Unit} {p : Prop}
    [Decidable p] {e : Error} (hanswer : call.answer f = if p then .ok f' else .error e)
    (hinPlace : inPlace f = if p then .ok () f' else .error e f)
    (hcheck : call.check bits.length = if p then .ok () else .error e)
    (hf' : p → f'.Tidy bits.length)
    (hbit : p → ∀ i < bits.length, f'.bit i = (call.assigned i).getD (f.bit i)) :
    AllOrNothing (call.answer f) inPlace f (call.check bits.length = .ok ())
      (fun f' => f'.Represents (call.assign bits)) (fun e => call.check bits.length = .error e) where
  loads hok := by
    by_cases hp : p
    · exact ⟨f', hanswer.trans (if_pos hp), hinPlace.trans (if_pos hp), h.assign (hf' hp) (hbit hp)⟩
    · rw [hcheck, if_neg hp] at hok
      cases hok
  refuses herror := by
    by_cases hp : p
    · exact absurd (hcheck.trans (if_pos hp)) herror
    · exact ⟨e, hanswer.trans (if_neg hp), hinPlace.trans (if_neg hp), hcheck.trans (if_neg hp)⟩

theorem setInPlace_eq (f : BitField) (index : Nat) (value : Bool) :
    setInPlace index value f = if index < f.len then .ok () (f.put index value)
      else .error (.outOfBounds index f.len) f := by
  rw [setInPlace, InPlace.getThe_bind]
  split <;> rfl

theorem setUnitInPlace_eq (f : BitField) (index : Nat) (value : Byte) :
    setUnitInPlace index value f = if index < f.units.size then .ok () (f.putUnit index value)
      else .error (.outOfBounds index f.units.size) f := by
  rw [setUnitInPlace, InPlace.getThe_bind]
  split <;> rfl

theorem loadBytesInPlace_eq (f : BitField) (bytes : List Byte) :
    loadBytesInPlace bytes f = if bytes.length = f.units.size
      then .ok () { f with units := bytes.toArray.mapIdx fun i value => value &&& unitMask f.len i }
      else .error (.outOfBounds bytes.length f.units.size) f := by
  split
  next h => exact loadBytesInPlace_of_loadBytes (if_pos h)
  next h =>
    obtain ⟨e, -, hin, rfl⟩ := (loadBytes_allOrNothing f bytes).refuses h
    exact hin

theorem Tidy.bit_put (h : f.Tidy len) {index : Nat} (hindex : index < len) (value : Bool) (i : Nat) :
    (f.put index value).bit i = (if i = index then some value else none).getD (f.bit i) := by
  have hunit := h.unit_lt hindex
  simp only [BitField.bit_put, hunit, and_true]
  split <;> rfl

/-- A call changes the bits that it gives a value to, or else it fails and changes nothing. -/
theorem Represents.allOrNothing (h : f.Represents bits) (call : BitCall) :
    AllOrNothing (call.answer f) call.inPlace f (call.check bits.length = .ok ())
      (fun f' => f'.Represents (call.assign bits)) (fun e => call.check bits.length = .error e) := by
  have hlength := h.tidy.length
  have hunits := h.tidy.units
  cases call with
  | set index value =>
    refine h.of_check (p := index < f.len) rfl (setInPlace_eq f index value) ?_ (fun hi => ?_)
      fun hi i _ => ?_
    · rw [hlength]
      rfl
    · exact h.tidy.put (hlength ▸ hi) value
    · exact h.tidy.bit_put (hlength ▸ hi) value i
  | clearBit index =>
    refine h.of_check (p := index < f.len) rfl (setInPlace_eq f index false) ?_ (fun hi => ?_)
      fun hi i _ => ?_
    · rw [hlength]
      rfl
    · exact h.tidy.put (hlength ▸ hi) false
    · exact h.tidy.bit_put (hlength ▸ hi) false i
  | clear =>
    exact h.of_check (p := True) (e := .outOfBounds 0 0) rfl rfl rfl (fun _ => h.tidy.clear)
      fun _ i _ => bit_clear f i
  | setUnit index value =>
    refine h.of_check (p := index < f.units.size) rfl (setUnitInPlace_eq f index value) ?_ (fun _ => ?_)
      fun hu i hi => ?_
    · rw [hunits]
      rfl
    · exact h.tidy.putUnit index value
    · simp only [bit_putUnit, hu, and_true, hlength, hi, decide_true, Bool.and_true, BitCall.assigned]
      split <;> rfl
  | loadBytes bytes =>
    refine h.of_check (p := bytes.length = f.units.size) rfl (loadBytesInPlace_eq f bytes) ?_
      (fun hb => ?_) fun hb i hi => ?_
    · rw [hunits]
      rfl
    · exact h.tidy.loadBytes (if_pos hb)
    · have hloaded := loaded_of_loadBytes (f := f) (if_pos hb)
      rw [hloaded.bit, hlength, decide_eq_true hi, Bool.and_true]
      rfl

theorem Represents.after (h : f.Represents bits) (call : BitCall) :
    (f.after call).Represents (call.update bits) := by
  have hcall := h.allOrNothing call
  rw [BitField.after]
  cases hcheck : call.check bits.length with
  | ok u =>
    obtain ⟨f', -, hin, hf'⟩ := hcall.loads hcheck
    rw [hin, BitCall.update, hcheck]
    exact hf'
  | error e =>
    have hrefused : ¬ call.check bits.length = .ok () := by rw [hcheck]; nofun
    obtain ⟨e, -, hin, -⟩ := hcall.refuses hrefused
    rw [hin, BitCall.update, hcheck]
    exact h

/-- What a field holds after a series of calls, some of which may have failed. -/
theorem Represents.foldl (h : f.Represents bits) (calls : List BitCall) :
    (calls.foldl BitField.after f).Represents (calls.foldl BitCall.update bits) := by
  induction calls generalizing f bits with
  | nil => exact h
  | cons call calls ih => exact ih (h.after call)

theorem length_foldl_update (calls : List BitCall) (bits : List Bool) :
    (calls.foldl BitCall.update bits).length = bits.length := by
  induction calls generalizing bits with
  | nil => rfl
  | cons call calls ih => exact (ih _).trans (call.length_update bits)

/-! ### Views -/

theorem Represents.bits_eq (h : f.Represents bits) : f.bits = bits := by
  refine List.ext_getElem? fun i => ?_
  rw [getElem?_bits, get, h.tidy.length]
  split
  next hi =>
    rw [h.bit, List.getD_eq_getElem?_getD, List.getElem?_eq_getElem hi]
    rfl
  next hi =>
    rw [List.getElem?_eq_none (Nat.le_of_not_lt hi)]
    rfl

/-- Fields of one length are told apart by their bits. -/
theorem Represents.unique (h : f.Represents bits) (h' : f'.Represents bits) : f = f' := by
  have hsize : f.units.size = f'.units.size := h.tidy.units.trans h'.tidy.units.symm
  have hunits : f.units = f'.units := by
    refine Array.ext hsize fun u hu hu' => BitVec.eq_of_getMsbD_eq fun k hk => ?_
    have hdiv : (8 * u + k) / 8 = u := by omega
    have hmod : (8 * u + k) % 8 = k := by omega
    have hbit := (h.bit (8 * u + k)).trans (h'.bit (8 * u + k)).symm
    simp only [BitField.bit, hdiv, hmod, Array.getD_eq_getD_getElem?, Array.getElem?_eq_getElem hu,
      Array.getElem?_eq_getElem hu', Option.getD_some] at hbit
    exact hbit
  obtain ⟨len, units⟩ := f
  obtain ⟨len', units'⟩ := f'
  rw [mk.injEq]
  exact ⟨h.tidy.length.trans h'.tidy.length.symm, hunits⟩

theorem Represents.get_eq (h : f.Represents bits) (i : Nat) : f.get i =
    match bits[i]? with
    | some b => .ok b
    | none => .error (.outOfBounds i bits.length) := by
  rw [BitField.get, h.tidy.length]
  split
  next hi =>
    rw [h.bit, List.getD_eq_getElem?_getD, List.getElem?_eq_getElem hi]
    rfl
  next hi => rw [List.getElem?_eq_none (Nat.le_of_not_lt hi)]

theorem Represents.exists_unit (h : f.Represents bits) {u : Nat} (hu : u < unitsFor bits.length) :
    ∃ unit, f.unit u = .ok unit ∧ ∀ j < 8, unit.getLsbD (7 - j) = bits.getD (8 * u + j) false := by
  have hsize : u < f.units.size := h.tidy.units ▸ hu
  have hunit : f.units[u]? = some f.units[u] := Array.getElem?_eq_getElem hsize
  refine ⟨_, by rw [unit, hunit], fun j hj => ?_⟩
  have hdiv : (8 * u + j) / 8 = u := by omega
  have hmod : (8 * u + j) % 8 = j := by omega
  rw [← h.bit, BitField.bit, hdiv, hmod, Array.getD_eq_getD_getElem?, hunit, Option.getD_some,
    BitVec.getMsbD_eq_getLsbD, decide_eq_true hj, Bool.true_and]

/-- The indexes of the ones are in order because those of all bits are. -/
theorem ones_increasing (f : BitField) : f.ones.Pairwise (· < ·) :=
  List.Pairwise.filter _ List.pairwise_lt_range

theorem Represents.mem_ones_iff (h : f.Represents bits) {i : Nat} :
    i ∈ f.ones ↔ bits[i]? = some true := by
  rw [ones, List.mem_filter, List.mem_range, h.tidy.length, h.bit, List.getD_eq_getElem?_getD]
  constructor
  · intro ⟨hi, hbit⟩
    rw [List.getElem?_eq_getElem hi] at hbit ⊢
    exact congrArg some hbit
  · intro hbit
    obtain ⟨hi, -⟩ := List.getElem?_eq_some_iff.1 hbit
    exact ⟨hi, by rw [hbit]; rfl⟩

/-! ### The field as a word -/

/-- The word has the bits of the field from the top on, and its lower places are clear. -/
theorem Represents.testBit_toWord (h : f.Represents bits) {w : Width} {x : Word}
    (hw : Width.fitting? bits.length = some w) (hx : f.toWord = .ok x) :
    x.width = w ∧ x.signed = false ∧
      ∀ k, x.raw.testBit k = (decide (k < w.bits) && bits.getD (w.bits - 1 - k) false) := by
  have hlength := h.tidy.length
  have hsize : 8 * f.units.size ≤ w.bits := by
    rw [h.tidy.units]
    exact (unitsFor_of_fitting? hw).1
  have hwide : w.bits ≤ 32 := w.bits_le
  rw [toWord, hlength, hw] at hx
  cases hx
  refine ⟨rfl, rfl, fun k => ?_⟩
  simp only [Word.setRaw, Word.zero, Width.truncate, Width.capacity]
  rw [Nat.testBit_mod_two_pow, Nat.testBit_mul_two_pow, Nat.testBit_mod_two_pow]
  by_cases hk : k < w.bits
  · by_cases hshift : w.bits - 8 * f.units.size ≤ k
    · have hi : w.bits - 1 - k < 8 * f.units.size := by omega
      have hplace : k - (w.bits - 8 * f.units.size) = 8 * f.units.size - 1 - (w.bits - 1 - k) := by
        omega
      have h32 : 8 * f.units.size - 1 - (w.bits - 1 - k) < 32 := by omega
      have h64 : 8 * f.units.size - 1 - (w.bits - 1 - k) < 64 := by omega
      rw [hplace, f.testBit_value hi, h.bit]
      simp only [hk, hshift, h32, h64, decide_true, Bool.true_and]
    · have hpast : bits.length ≤ w.bits - 1 - k := by
        have hunits := h.tidy.units
        rw [unitsFor] at hunits
        omega
      rw [List.getD_eq_default _ _ hpast]
      simp only [hshift, decide_false, Bool.false_and, Bool.and_false]
  · simp only [hk, decide_false, Bool.false_and]

/-! ### Everything that is read -/

/-- All that can be read of a field is read off the sequence of its bits. -/
structure Shows (f : BitField) (bits : List Bool) : Prop where
  len : f.len = bits.length
  get (i : Nat) : f.get i = match bits[i]? with
    | some b => .ok b
    | none => .error (.outOfBounds i bits.length)
  /-- There are just enough units. -/
  unit_count : f.units.size = (bits.length + 7) / 8
  unit : ∀ u < f.units.size, ∃ unit, f.unit u = .ok unit ∧
    ∀ j < 8, unit.getLsbD (7 - j) = bits.getD (8 * u + j) false
  /-- A cursor from the front hands out the bits in order, and then nothing. -/
  pulls (n : Nat) : ((BitCursor.start f).pulls (List.replicate n .front)).map Prod.fst =
    (List.range n).map (bits[·]?)
  in_order : f.bits = bits
  ones : f.ones.Pairwise (· < ·) ∧ ∀ i, i ∈ f.ones ↔ bits[i]? = some true
  value : f.value = Nat.ofDigits 256 (f.units.toList.reverse.map BitVec.toNat) % 2 ^ 64
  /-- The first bit is at the top of the narrowest word that has room for all. -/
  word : bits.length ≤ 32 → ∃ x, f.toWord = .ok x ∧ x.signed = false ∧
    (bits.length ≤ x.width.bits ∧ ∀ w : Width, bits.length ≤ w.bits → x.width.bits ≤ w.bits) ∧
    ∀ k, x.raw.testBit k = (decide (k < x.width.bits) && bits.getD (x.width.bits - 1 - k) false)
  no_word : 32 < bits.length → f.toWord = .error (.unsupportedWidth bits.length)

theorem Represents.shows (h : f.Represents bits) : f.Shows bits where
  len := h.tidy.length
  get := h.get_eq
  unit_count := h.tidy.units
  unit u hu := h.exists_unit (h.tidy.units ▸ hu)
  pulls n := by rw [BitCursor.pulls_front, BitCursor.unread_start, h.bits_eq]
  in_order := h.bits_eq
  ones := ⟨f.ones_increasing, fun _ => h.mem_ones_iff⟩
  value := f.value_eq_ofDigits
  word hle := by
    cases hw : Width.fitting? bits.length with
    | none => exact absurd (Width.fitting?_eq_none_iff.1 hw) (Nat.not_lt.2 hle)
    | some w =>
      have hword : ∃ x, f.toWord = .ok x := by
        rw [toWord, h.tidy.length, hw]
        exact ⟨_, rfl⟩
      obtain ⟨x, hx⟩ := hword
      obtain ⟨hwidth, hsigned, hbits⟩ := h.testBit_toWord hw hx
      rw [← hwidth] at hw hbits
      exact ⟨x, hx, hsigned, Width.isLeast_of_fitting? hw, hbits⟩
  no_word hlt := by rw [toWord, h.tidy.length, Width.fitting?_eq_none_iff.2 hlt]

/-- A field is a sequence of bits. Each call that asks for what the field has changes the bits that it
gives a value to, and any other call fails and changes nothing; so after any series of calls the field
shows the sequence that the same calls make of as many clear bits, and two fields of one length that were
changed in different ways are the same exactly if these sequences are. -/
theorem implements_bits (len : Nat) (calls : List BitCall) :
    let f := calls.foldl after (zero len)
    let bits := calls.foldl BitCall.update (List.replicate len false)
    bits.length = len ∧ f.Shows bits ∧
    (∀ call : BitCall, AllOrNothing (call.answer f) call.inPlace f (call.check len = .ok ())
      (fun f' => f'.Shows (call.assign bits))
      (fun e => call.check len = .error e)) ∧
    ∀ others : List BitCall, f = others.foldl after (zero len) ↔
      bits = others.foldl BitCall.update (List.replicate len false) := by
  intro f bits
  have hrepresents (calls : List BitCall) := (zero_represents len).foldl calls
  have hlen : bits.length = len := by rw [length_foldl_update, List.length_replicate]
  have hf : f.Represents bits := hrepresents calls
  refine ⟨hlen, hf.shows, fun call => ?_, fun others => ?_⟩
  · rw [← hlen]
    exact (hf.allOrNothing call).imp fun f' hf' => hf'.shows
  · constructor
    · intro h
      rw [← hf.bits_eq, h]
      exact (hrepresents others).bits_eq
    · intro h
      exact (h ▸ hf).unique (hrepresents others)

/-- Twenty bits, changed by two calls that succeed and three that fail. They stand at the top of a word
of 32 bits, and other calls lead to the same field. -/
theorem implements_bits_uneven :
    let calls : List BitCall := [.loadBytes [0xFF, 0, 0xFF], .set 20 true, .clearBit 3,
      .setUnit 3 0xFF, .loadBytes [0]]
    let f := calls.foldl after (zero 20)
    f.unit 2 = .ok 0xF0 ∧ f.get 3 = .ok false ∧ f.get 20 = .error (.outOfBounds 20 20) ∧
      (∃ x, f.toWord = .ok x ∧ x.width = .w32 ∧ x.raw.testBit 31 = true ∧ x.raw.testBit 28 = false ∧
        x.raw.testBit 11 = false) ∧
      (BitCall.set 20 true).inPlace f = .error (.outOfBounds 20 20) f ∧
      f = [BitCall.setUnit 2 0xFF, .setUnit 0 0xEF].foldl after (zero 20) := by
  intro calls f
  obtain ⟨hlen, hshows, hcall, hsame⟩ := implements_bits 20 calls
  have hbits : calls.foldl BitCall.update (List.replicate 20 false) =
      [true, true, true, false, true, true, true, true, false, false, false, false, false, false,
        false, false, true, true, true, true] := by decide
  rw [hbits] at hshows hsame
  obtain ⟨x, hx, -, hwidth, hword⟩ := hshows.word (by decide)
  have hw : x.width = .w32 := by
    cases h : x.width with
    | w8 | w16 => exact absurd hwidth.1 (by rw [h]; decide)
    | w32 => rfl
  obtain ⟨e, -, hin, herror⟩ := (hcall (.set 20 true)).refuses (by decide)
  cases herror
  rw [hw] at hword
  refine ⟨by decide, hshows.get 3, hshows.get 20, ⟨x, hx, hw, ?_, ?_, ?_⟩, hin, (hsame _).2 (by decide)⟩
  · rw [hword]
    decide
  · rw [hword]
    decide
  · rw [hword]
    decide

end BitField

end Microcontroller
