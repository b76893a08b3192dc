import Microcontroller.Proofs.Unguarded.Word
import Microcontroller.Proofs.Word.Residue
/-!
# Words that change

A word is set as a whole, in one of its halves, or to zero. However often this is done, its pattern does
not outgrow its width; so the upper half needs no mask when it is read, and the two halves make up the
pattern. Here the calls that change a word are carried out a second time, with masks and shifts in
registers of 32 and 64 bits, and come to the same.
-/

namespace Microcontroller

open TwosComplement

/-- The calls that change a word. -/
inductive WordCall where
  | set (v : Int)
  | setRaw (r : Nat)
  | setHigh (v : Nat)
  | setLow (v : Nat)
  | clear

namespace Width

variable (w : Width)

theorem two_mul_halfBits : w.halfBits + w.halfBits = w.bits := by
  cases w <;> rfl

theorem halfCapacity_pos : 0 < w.halfCapacity := Nat.two_pow_pos _

theorem halfCapacity_mul_self : w.halfCapacity * w.halfCapacity = w.capacity := by
  rw [halfCapacity, capacity, ← Nat.pow_add, w.two_mul_halfBits]

/-- A pattern is cut down to a word by a mask. -/
theorem and_mask (r : Nat) : r &&& w.mask = w.truncate r :=
  Nat.and_two_pow_sub_one_eq_mod r w.bits

/-- An integer that is put in 64 bits first is cut down to the same word. -/
theorem truncate_encode (x : Int) : w.truncate (encode 64 x) = w.wrap x := by
  have hdvd : ((2 ^ w.bits : Nat) : Int) ∣ (2 ^ 64 : Nat) :=
    Int.natCast_dvd_natCast.2 (Nat.pow_dvd_pow 2 w.bits_le_64)
  have hcast : (w.truncate (encode 64 x) : Int) = w.wrap x := by
    rw [truncate, capacity, Int.natCast_emod, natCast_encode, wrap,
      natCast_encode, Int.emod_emod_of_dvd x hdvd]
  exact Int.ofNat.inj hcast

/-! ### Halves -/

theorem join_halves (r : Nat) : w.high r * w.halfCapacity + w.low r = r := Nat.div_add_mod' r _

theorem low_lt (r : Nat) : w.low r < w.halfCapacity := Nat.mod_lt r w.halfCapacity_pos

variable {w}

theorem high_lt {r : Nat} (h : r < w.capacity) : w.high r < w.halfCapacity := by
  rw [← halfCapacity_mul_self] at h
  exact Nat.div_lt_of_lt_mul h

/-- A pattern that is made up of two halves has these halves. -/
theorem halves_of_eq {r high low : Nat} (h : r = high * w.halfCapacity + low)
    (hlow : low < w.halfCapacity) : w.high r = high ∧ w.low r = low := by
  have hhigh : w.high r = high := by
    rw [h, Width.high, Nat.mul_comm, Nat.mul_add_div w.halfCapacity_pos, Nat.div_eq_of_lt hlow,
      Nat.add_zero]
  have hjoin := w.join_halves r
  rw [hhigh, h] at hjoin
  exact ⟨hhigh, by rw [h]; omega⟩

theorem lt_of_halves {high low : Nat} (hhigh : high < w.halfCapacity) (hlow : low < w.halfCapacity) :
    high * w.halfCapacity + low < w.capacity := by
  calc high * w.halfCapacity + low < (high + 1) * w.halfCapacity := by rw [Nat.succ_mul]; omega
    _ ≤ w.halfCapacity * w.halfCapacity := Nat.mul_le_mul_right _ hhigh
    _ = w.capacity := w.halfCapacity_mul_self

end Width

/-! ### Calls -/

namespace WordCall

/-- What a call makes of a pattern. -/
def pattern (w : Width) : WordCall → Nat → Nat
  | set v, _ => w.wrap v
  | setRaw r, _ => w.truncate r
  | setHigh v, r => w.withHigh r v
  | setLow v, r => w.withLow r v
  | clear, _ => 0

/-- What a call makes of a pattern in registers. -/
def pattern! (w : Width) : WordCall → Nat → Unguarded Nat
  | set v, _ => .ok (encode 64 v &&& w.mask)
  | setRaw r, _ => .ok (r &&& w.mask)
  | setHigh v, r => w.withHigh! r v
  | setLow v, r => w.withLow! r v
  | clear, _ => .ok 0

variable (w : Width) (call : WordCall)

theorem pattern!_eq (r : Nat) : call.pattern! w r = .ok (call.pattern w r) := by
  cases call with
  | set v => rw [pattern!, w.and_mask, w.truncate_encode, pattern]
  | setRaw r => rw [pattern!, w.and_mask, pattern]
  | setHigh v => exact w.withHigh!_eq r v
  | setLow v => exact w.withLow!_eq r v
  | clear => rfl

/-- No call makes a pattern too long. -/
theorem pattern_lt {r : Nat} (h : r < w.capacity) : call.pattern w r < w.capacity := by
  cases call with
  | set v => exact w.wrap_lt v
  | setRaw r => exact w.truncate_lt r
  | setHigh v => exact Width.lt_of_halves (Nat.mod_lt v w.halfCapacity_pos) (w.low_lt r)
  | setLow v => exact Width.lt_of_halves (Width.high_lt h) (Nat.mod_lt v w.halfCapacity_pos)
  | clear => exact w.capacity_pos

end WordCall

namespace Word

/-- The word as a call leaves it. -/
def after (x : Word) : WordCall → Word
  | .set v => x.set v
  | .setRaw r => x.setRaw r
  | .setHigh v => x.setHigh v
  | .setLow v => x.setLow v
  | .clear => x.clear

/-- The word as a call in registers leaves it. -/
def after! (x : Word) (call : WordCall) : Unguarded Word := do
  return { x with raw := ← call.pattern! x.width x.raw }

/-- A word of this width and reading, with its pattern inside the width. -/
structure Fits (w : Width) (signed : Bool) (x : Word) : Prop where
  width : x.width = w
  signed : x.signed = signed
  lt : x.raw < w.capacity

variable {w : Width} {signed : Bool} {x : Word}

theorem get_of_unsigned (h : x.signed = false) : x.get = x.raw := by
  rw [get, h]
  rfl

theorem after_eq (x : Word) (call : WordCall) :
    x.after call = { x with raw := call.pattern x.width x.raw } := by
  cases call <;> rfl

theorem after!_eq (x : Word) (call : WordCall) : x.after! call = .ok (x.after call) := by
  rw [after!, Unguarded.bind_eq (call.pattern!_eq x.width x.raw), after_eq]
  rfl

theorem zero_fits (w : Width) (signed : Bool) : (zero w signed).Fits w signed :=
  ⟨rfl, rfl, w.capacity_pos⟩

theorem Fits.after (h : x.Fits w signed) (call : WordCall) : (x.after call).Fits w signed := by
  rw [after_eq]
  exact ⟨h.width, h.signed, h.width ▸ call.pattern_lt w h.lt⟩

theorem Fits.foldl (h : x.Fits w signed) (calls : List WordCall) :
    (calls.foldl Word.after x).Fits w signed := by
  induction calls generalizing x with
  | nil => exact h
  | cons call calls ih => exact ih (h.after call)

/-- A series of calls in registers takes no misstep, and leaves the word that the calls leave. -/
theorem foldlM_after! (calls : List WordCall) (x : Word) :
    calls.foldlM after! x = .ok (calls.foldl after x) :=
  Unguarded.foldlM_eq (P := fun _ => True) (fun x _ call _ => x.after!_eq call)
    (fun _ _ _ _ => trivial) trivial

/-! ### What words come to -/

/-- The halves of a word make up its pattern. A call that sets one of them leaves the other. -/
structure Halved (x : Word) : Prop where
  raw : x.raw = 2 ^ (x.width.bits / 2) * x.high + x.low
  high_lt : x.high < 2 ^ (x.width.bits / 2)
  low_lt : x.low < 2 ^ (x.width.bits / 2)
  setHigh (v : Nat) :
    (x.setHigh v).high = v % 2 ^ (x.width.bits / 2) ∧ (x.setHigh v).low = x.low
  setLow (v : Nat) :
    (x.setLow v).high = x.high ∧ (x.setLow v).low = v % 2 ^ (x.width.bits / 2)

/-- What a word shows is what masks and shifts make of its pattern. -/
structure Shows (x : Word) : Prop where
  value : x.width.value! x.signed x.raw = .ok x.get
  high : x.width.high! x.raw = .ok x.high
  low : x.width.low! x.raw = .ok x.low

theorem shows (x : Word) : x.Shows where
  value := x.width.value!_eq x.signed x.raw
  high := x.width.high!_eq x.raw
  low := x.width.low!_eq x.raw

theorem Fits.halved (h : x.Fits w signed) : x.Halved where
  raw := by
    have hjoin := x.width.join_halves x.raw
    rw [Nat.mul_comm] at hjoin
    exact hjoin.symm
  -- The upper half is read without a mask: it is the length of the pattern that bounds it.
  high_lt := Width.high_lt (h.width ▸ h.lt)
  low_lt := x.width.low_lt x.raw
  setHigh v := Width.halves_of_eq rfl (x.width.low_lt x.raw)
  setLow v := Width.halves_of_eq rfl (Nat.mod_lt v x.width.halfCapacity_pos)

/-- Arithmetic in words is exact. An integer is cut down to the one that is left of it in the width, and
a pattern shows the one that is left of its number; both come about by masks and by shifts in 64 bits,
which extend the sign of any number of bits. Whatever calls change a word, in registers they leave what
they leave here, and its halves are set one by one and make it up. -/
theorem arithmetic_exact :
    (∀ (w : Width) (x : Int), encode 64 x &&& w.mask = w.wrap x ∧
      ∀ y : Int, w.wrap x = y ↔ Residue w.bits false x y) ∧
    (∀ (w : Width) (r : Nat), signExtend! w.bits r = .ok (w.toSigned r) ∧
      (∀ y, w.toSigned r = y ↔ Residue w.bits true r y) ∧
      w.wrap (w.toSigned r) = r % 2 ^ w.bits) ∧
    (∀ n r : Nat, 1 ≤ n → n ≤ 64 → signExtend! n r = .ok (decode n r) ∧
      ∀ y, decode n r = y ↔ Residue n true r y) ∧
    (∀ (x : Word) (v y : Int), (x.set v).get = y ↔ Residue x.width.bits x.signed v y) ∧
    ∀ (w : Width) (signed : Bool) (calls : List WordCall),
      let x := calls.foldl after (zero w signed)
      calls.foldlM after! (zero w signed) = .ok x ∧ x.Fits w signed ∧ x.Shows ∧ x.Halved ∧
      (signed = false → x.get = 2 ^ (w.bits / 2) * x.high + x.low) := by
  refine ⟨fun w x => ⟨?_, ?_⟩, fun w r => ⟨?_, ?_, encode_decode w.bits r⟩,
    fun n r hpos hle => ⟨signExtend!_eq hpos hle r, ?_⟩, fun x v => ?_, fun w signed calls => ?_⟩
  · rw [w.and_mask, w.truncate_encode]
  · exact (encode_residue w.bits x).eq_iff w.bits_pos
  · exact signExtend!_eq w.bits_pos w.bits_le_64 r
  · exact (decode_residue w.bits_pos r).eq_iff w.bits_pos
  · exact (decode_residue hpos r).eq_iff hpos
  · exact (x.get_set_residue v).eq_iff x.width.bits_pos
  · have hfits := (zero_fits w signed).foldl calls
    refine ⟨foldlM_after! calls _, hfits, shows _, hfits.halved, fun hsigned => ?_⟩
    have hraw := hfits.halved.raw
    rw [hfits.width] at hraw
    rw [get_of_unsigned (hfits.signed.trans hsigned)]
    exact_mod_cast hraw

/-- One bit of sign and 64, the least and the greatest integer of 64 bits, and a byte that is set as a
whole and then in both halves. -/
theorem arithmetic_exact_extremes :
    signExtend! 1 3 = .ok (-1) ∧ signExtend! 64 (2 ^ 32 - 1) = .ok (2 ^ 32 - 1) ∧
    ((zero .w16 true).set (2 ^ 63 - 1)).get = -1 ∧
    let x := [WordCall.set (-2 ^ 63), .setHigh 0xF3, .setLow 0x1E].foldl after (zero .w8 false)
    x.get = 0x3E ∧ x.get = 2 ^ 4 * x.high + x.low ∧ (x.setLow 0).high = 3 := by
  obtain ⟨-, -, hextend, hset, hcalls⟩ := arithmetic_exact
  have hminus : Residue 16 true (2 ^ 63 - 1) (-1) := ⟨by decide, by decide, by decide⟩
  obtain ⟨-, -, -, hhalved, hget⟩ := hcalls .w8 false [.set (-2 ^ 63), .setHigh 0xF3, .setLow 0x1E]
  exact ⟨(hextend 1 3 (by decide) (by decide)).1, (hextend 64 (2 ^ 32 - 1) (by decide) (by decide)).1,
    (hset _ _ _).2 hminus, by decide, hget rfl, (hhalved.setLow 0).1⟩

end Word

end Microcontroller
