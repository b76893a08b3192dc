import Microcontroller.Proofs.InPlace
import Microcontroller.Proofs.Word.Change
/-!
# The cells of a row are words of their own

What is done to a row is done to the words in it, each for itself. So a cell is at any time the word that
comes of the calls that reached it, and neither the calls on other cells nor those that failed can be
told from it. The rows here are changed in registers and in place, with what was written before a failure
left as it is, and are read by masks and shifts.
-/

namespace Microcontroller

/-- The calls that change a row. -/
inductive CellCall where
  /-- Change the cell at an index as a word is changed. -/
  | change (index : Nat) (call : WordCall)
  | clear
  | load (offset : Nat) (data : List Nat)

namespace Cells

/-- The answer of a row to a call on one of its cells. -/
def change (c : Cells) (index : Nat) : WordCall → Except Error Cells
  | .set v => c.set index v
  | .setRaw r => c.setRaw index r
  | .setHigh v => c.setHigh index v
  | .setLow v => c.setLow index v
  | .clear => c.clearAt index

/-- A change of one cell in registers, behind a check of its index. -/
def change! (c : Cells) (index : Nat) (call : WordCall) : Refusable Error Cells :=
  c.update! index (call.pattern! c.width)

end Cells

namespace CellCall

/-- What a call asks of a row of `len` cells: that it has the cell, or room for the data. -/
def check (len : Nat) : CellCall → Except Error Unit
  | change index _ => if index < len then .ok () else .error (.outOfBounds index len)
  | clear => .ok ()
  | load offset data =>
    if offset + data.length ≤ len then .ok ()
    else .error (.outOfBounds (min (offset + data.length) (2 ^ 64 - 1) - 1) len)

/-- What a call that is made does to the word at an index, if it does anything to it. -/
def onWord (i : Nat) : CellCall → Option WordCall
  | change index call => if index = i then some call else none
  | clear => some .clear
  | load offset data => if offset ≤ i then data[i - offset]?.map .setRaw else none

/-- What becomes of a call at an index of a row of `len` cells: nothing if it fails. -/
def done (len i : Nat) (call : CellCall) : Option WordCall :=
  match call.check len with
  | .ok () => call.onWord i
  | .error _ => none

/-- The answer of a row to a call. -/
def answer (c : Cells) : CellCall → Except Error Cells
  | change index call => c.change index call
  | clear => .ok c.clear
  | load offset data => c.load offset data

/-- A call on a row that stays where it is. A single cell is written last of all. -/
def inPlace : CellCall → InPlace (Obstacle Error) Cells Unit
  | change index call => fun c => InPlace.ofResult c (c.change! index call)
  | clear => modify Cells.clear
  | load offset data => (Cells.loadInPlace offset data).adaptExcept .refusal

/-- The end of a load has to be told from the last number of 64 bits. -/
def Addressable (len : Nat) : CellCall → Prop
  | load .. => len < 2 ^ 63
  | change .. | clear => True

end CellCall

namespace Cells

/-- The row as a call leaves it, whether or not it fails. -/
def after (c : Cells) (call : CellCall) : Cells := (call.answer c).toOption.getD c

variable {c c' : Cells} {i : Nat}

theorem change_eq (c : Cells) (index : Nat) (call : WordCall) :
    c.change index call = c.update index (call.pattern c.width) := by
  cases call <;> rfl

theorem change!_eq (c : Cells) (index : Nat) (call : WordCall) :
    c.change! index call = checked (c.change index call) := by
  rw [change!, c.update!_eq index (call.pattern!_eq c.width), change_eq]

/-- A call is made if the row has what it asks for, and is else refused with the error that says so. -/
theorem answer_eq (c : Cells) (call : CellCall) :
    call.answer c = (call.check c.size).map fun _ => c.after call := by
  cases call with
  | change index call =>
    simp only [after, CellCall.answer, CellCall.check, change_eq, update]
    split <;> rfl
  | clear => rfl
  | load offset data =>
    simp only [after, CellCall.answer, CellCall.check, load, List.size_toArray]
    split <;> rfl

/-! ### What a call does to a cell -/

/-- What is made of the pattern of a cell that a call may have reached. -/
def reached (w : Width) (call : Option WordCall) (r : Nat) : Nat := call.elim r (·.pattern w r)

/-- Where a pattern is changed as a call changes it, so is the word. -/
theorem word?_of_reached {call : Option WordCall} (hwidth : c'.width = c.width)
    (hsigned : c'.signed = c.signed) (hsize : c'.size = c.size)
    (hcell : c'.raw[i]? = c.raw[i]?.map (reached c.width call)) :
    c'.word? i = (c.word? i).map fun x => call.elim x x.after := by
  rw [word?, word?, raw?, raw?, hcell, hwidth, hsigned, hsize]
  cases c.raw[i]? with
  | none => rfl
  | some r =>
    cases call with
    | none => rfl
    | some call => exact congrArg Except.ok (Word.after_eq ⟨c.width, c.signed, r⟩ call).symm

theorem reached_none (w : Width) : reached w none = id := rfl

theorem getElem?_change (c : Cells) (index : Nat) (call : WordCall) (i : Nat) :
    (c.raw.modify index (call.pattern c.width))[i]? =
      c.raw[i]?.map (reached c.width ((CellCall.change index call).onWord i)) := by
  rw [Array.getElem?_modify, CellCall.onWord]
  split
  next => rfl
  next => rw [reached_none, Option.map_id_apply]

theorem getElem?_clear (c : Cells) (i : Nat) :
    c.clear.raw[i]? = c.raw[i]?.map (reached c.width (CellCall.clear.onWord i)) := by
  rw [clear, Array.getElem?_replicate]
  split
  next hi => rw [Array.getElem?_eq_getElem hi]; rfl
  next hi => rw [Array.getElem?_eq_none (Nat.le_of_not_lt hi)]; rfl

theorem getElem?_load {offset : Nat} {data : List Nat} (h : c.load offset data = .ok c') (i : Nat) :
    c'.raw[i]? = c.raw[i]?.map (reached c.width ((CellCall.load offset data).onWord i)) := by
  have hfits : offset + data.length ≤ c.raw.size := load_ok_iff.1 ⟨c', h⟩
  rw [raw?_load h, CellCall.onWord]
  split
  next hi =>
    have hdata : i - offset < data.length := by omega
    rw [if_pos hi.1, List.getElem?_eq_getElem hdata,
      Array.getElem?_eq_getElem (Nat.lt_of_lt_of_le hi.2 hfits)]
    rfl
  next hi =>
    have hnone : (if offset ≤ i then data[i - offset]?.map WordCall.setRaw else none) = none := by
      split
      next hle =>
        have hdata : data.length ≤ i - offset := by omega
        rw [List.getElem?_eq_none hdata, Option.map_none]
      next => rfl
    rw [hnone, reached_none, Option.map_id_apply]

/-- A call that is made does to each cell what it does to a word. -/
theorem word?_of_answer {call : CellCall} (h : call.answer c = .ok c') (i : Nat) :
    c'.size = c.size ∧ c'.word? i = (c.word? i).map fun x => (call.onWord i).elim x x.after := by
  cases call with
  | change index call =>
    rw [CellCall.answer, change_eq, update] at h
    split at h <;> cases h
    have hsize : (c.raw.modify index (call.pattern c.width)).size = c.raw.size := Array.size_modify
    exact ⟨hsize, word?_of_reached rfl rfl hsize (c.getElem?_change index call i)⟩
  | clear =>
    cases h
    have hsize : c.clear.raw.size = c.raw.size := Array.size_replicate
    exact ⟨hsize, word?_of_reached rfl rfl hsize (c.getElem?_clear i)⟩
  | load offset data =>
    have hloaded := loaded_of_load h
    exact ⟨hloaded.size, word?_of_reached hloaded.width hloaded.signed hloaded.size (getElem?_load h i)⟩

/-- What a call does to a cell is what is done of it there, which is nothing if the call fails. -/
theorem word?_after (c : Cells) (call : CellCall) (i : Nat) :
    (c.after call).size = c.size ∧
      (c.after call).word? i = (c.word? i).map fun x => (call.done c.size i).elim x x.after := by
  have hanswer := c.answer_eq call
  cases hcheck : call.check c.size with
  | ok u =>
    rw [hcheck] at hanswer
    rw [CellCall.done, hcheck]
    exact word?_of_answer hanswer i
  | error e =>
    have hsame : c.after call = c := by
      rw [after, hanswer, hcheck]
      rfl
    rw [hsame, CellCall.done, hcheck]
    exact ⟨rfl, word?_of_reached rfl rfl rfl (by rw [reached_none, Option.map_id_apply])⟩

/-- After a series of calls a cell holds the word that comes of what was done there. -/
theorem word?_foldl (calls : List CellCall) (c : Cells) (i : Nat) :
    (calls.foldl after c).size = c.size ∧ (calls.foldl after c).word? i =
      (c.word? i).map fun x => (calls.filterMap (·.done c.size i)).foldl Word.after x := by
  -- A call keeps the size of the row, so for the calls behind it the same cells are there.
  induction calls generalizing c with
  | nil =>
    refine ⟨rfl, ?_⟩
    change c.word? i = (c.word? i).map id
    cases c.word? i <;> rfl
  | cons call calls ih =>
    obtain ⟨hsize, hword⟩ := c.word?_after call i
    obtain ⟨hsizes, hwords⟩ := ih (c.after call)
    refine ⟨hsizes.trans hsize, hwords.trans ?_⟩
    rw [hword, hsize, List.filterMap_cons]
    cases call.done c.size i <;> cases c.word? i <;> rfl

theorem word?_zero (w : Width) (signed : Bool) (len i : Nat) :
    (zero w signed len).word? i =
      if i < len then .ok (.zero w signed) else .error (.outOfBounds i len) := by
  rw [word?, raw?, zero, Array.getElem?_replicate, size, Array.size_replicate]
  by_cases hi : i < len
  · rw [if_pos hi, if_pos hi]
    rfl
  · rw [if_neg hi, if_neg hi]
    rfl

/-! ### Calls in place -/

/-- In place a call takes no misstep and answers what it answers, with nothing written if it fails. -/
theorem inPlace_eq {call : CellCall} (h : call.Addressable c.size) :
    call.inPlace c = InPlace.ofResult c (checked (call.answer c)) := by
  cases call with
  | change index call => exact congrArg (InPlace.ofResult c) (c.change!_eq index call)
  | clear => rfl
  | load offset data => exact ((load_allOrNothing h offset data).mapError Obstacle.refusal).inPlace_eq

theorem allOrNothing {call : CellCall} (h : call.Addressable c.size) :
    AllOrNothing (checked (call.answer c)) call.inPlace c (call.check c.size = .ok ())
      (c.after call = ·) (fun o => ∃ e, call.check c.size = .error e ∧ .refusal e = o) where
  loads hcheck := by
    have hanswer : checked (call.answer c) = .ok (c.after call) := by
      rw [answer_eq, hcheck]
      rfl
    exact ⟨_, hanswer, by rw [inPlace_eq h, hanswer, InPlace.ofResult], rfl⟩
  refuses hcheck := by
    obtain ⟨e, he⟩ := exists_error_iff.2 fun ⟨u, hu⟩ => hcheck hu
    have hanswer : checked (call.answer c) = .error (.refusal e) := by
      rw [answer_eq, he]
      rfl
    exact ⟨_, hanswer, by rw [inPlace_eq h, hanswer, InPlace.ofResult], e, he, rfl⟩

/-! ### What is read -/

/-- What is read at an index, as a word and by masks and shifts, is what this word holds and shows. -/
structure ShowsAt (c : Cells) (i : Nat) (answer : Except Error Word) : Prop where
  word : c.word? i = answer
  raw : c.raw! i = checked (answer.map Word.raw)
  value : c.value! i = checked (answer.map Word.get)
  high : c.high! i = checked (answer.map Word.high)
  low : c.low! i = checked (answer.map Word.low)

theorem showsAt (c : Cells) (i : Nat) : c.ShowsAt i (c.word? i) where
  word := rfl
  raw := by
    rw [c.sound.raw, word?]
    cases c.raw? i <;> rfl
  value := c.sound.value i
  high := c.sound.high i
  low := c.sound.low i

/-- The cells of a row are words of their own. After any series of calls each of them holds and shows
the word that comes of what was done at its index, and there is nothing to be read at other indexes. A
further call on a cell is made if the row has the cell, a load if the row has room for the data; then
each word is changed by what is done at its index. Any other call is refused, and nothing is written. -/
theorem cells_independent (w : Width) (signed : Bool) (len : Nat) (calls : List CellCall) :
    let c := calls.foldl after (zero w signed len)
    let word i := (calls.filterMap (·.done len i)).foldl Word.after (.zero w signed)
    (∀ i, c.ShowsAt i (if i < len then .ok (word i) else .error (.outOfBounds i len))) ∧
    ∀ call : CellCall, call.Addressable len →
      AllOrNothing (checked (call.answer c)) call.inPlace c (call.check len = .ok ())
        (fun c' => ∀ i < len, c'.ShowsAt i (.ok ((call.onWord i).elim (word i) (word i).after)))
        (fun o => ∃ e, call.check len = .error e ∧ .refusal e = o) := by
  intro c word
  have hzero : (zero w signed len).size = len := Array.size_replicate
  have hsize : c.size = len := (word?_foldl calls _ 0).1.trans hzero
  have hword (i : Nat) : c.word? i = if i < len then .ok (word i) else .error (.outOfBounds i len) := by
    rw [(word?_foldl calls _ i).2, hzero, word?_zero]
    split <;> rfl
  refine ⟨fun i => hword i ▸ c.showsAt i, fun call haddressable => ?_⟩
  have hcall := allOrNothing (c := c) (hsize ▸ haddressable)
  rw [hsize] at hcall
  refine ⟨fun hcheck => ?_, hcall.refuses⟩
  obtain ⟨c', hanswer, hin, rfl⟩ := hcall.loads hcheck
  refine ⟨_, hanswer, hin, fun i hi => ?_⟩
  have hafter : (c.after call).word? i = .ok ((call.onWord i).elim (word i) (word i).after) := by
    rw [(c.word?_after call i).2, hword, if_pos hi, CellCall.done, hsize, hcheck]
    rfl
  exact hafter ▸ showsAt _ i

/-- Three signed bytes. Two calls fail, three reach the middle one and two the last; then a load of two
cells leaves the last as it is. -/
theorem cells_independent_mixed :
    let calls : List CellCall := [.load 1 [300, 5], .change 1 (.setHigh 0xF), .change 3 (.set 1),
      .load 2 [7, 7], .change 2 (.set (-1)), .change 1 (.setLow 3)]
    let c := calls.foldl after (zero .w8 true 3)
    c.value! 1 = .ok (-13) ∧ c.high! 1 = .ok 0xF ∧ c.value! 2 = .ok (-1) ∧
      c.raw! 3 = .error (.refusal (.outOfBounds 3 3)) ∧
      (CellCall.change 3 .clear).inPlace c = .error (.refusal (.outOfBounds 3 3)) c ∧
      ∃ c', (CellCall.load 0 [1, 2]).inPlace c = .ok () c' ∧ c'.value! 1 = .ok 2 ∧
        c'.value! 2 = .ok (-1) := by
  intro calls c
  obtain ⟨hshows, hcall⟩ := cells_independent .w8 true 3 calls
  have hmiddle : c.ShowsAt 1 (.ok ⟨.w8, true, 0xF3⟩) := hshows 1
  have hlast : c.ShowsAt 2 (.ok ⟨.w8, true, 0xFF⟩) := hshows 2
  obtain ⟨e, -, hrefused, e', herror, rfl⟩ := (hcall (.change 3 .clear) trivial).refuses (by decide)
  cases herror
  have haddressable : CellCall.Addressable 3 (.load 0 [1, 2]) := show 3 < 2 ^ 63 by decide
  obtain ⟨c', -, hloaded, hafter⟩ := (hcall (.load 0 [1, 2]) haddressable).loads (by decide)
  have hsecond : c'.ShowsAt 1 (.ok ⟨.w8, true, 2⟩) := hafter 1 (by decide)
  have hkept : c'.ShowsAt 2 (.ok ⟨.w8, true, 0xFF⟩) := hafter 2 (by decide)
  exact ⟨hmiddle.value, hmiddle.high, hlast.value, (hshows 3).raw, hrefused, c', hloaded,
    hsecond.value, hkept.value⟩

end Cells

end Microcontroller
