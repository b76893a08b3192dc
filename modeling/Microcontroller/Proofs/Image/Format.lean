import Mathlib.Algebra.Group.Int.Defs
import Mathlib.Algebra.Group.Nat.Defs
import Microcontroller.Image.Format
import Microcontroller.Proofs.Result
/-!
# Formats are exact

A format is exact if reading succeeds on what is written in it and on nothing else, and leaves
whatever stands behind. That is one equivalence, and it passes from the parts of a composed format to
the whole. It leaves no choice between spellings, and none of them can end early: what is left behind
is known, and it is not part of the value.
-/

namespace Microcontroller.Format

variable {α β : Type}

/-- Reading gives a value exactly where the value fits and its bytes stand in front, and then the
bytes behind are left. -/
structure Exact (format : Format α) : Prop where
  read_iff : ∀ {bytes : List Byte} {a : α} {rest : List Byte},
    format.read bytes = .ok (a, rest) ↔ format.fits a ∧ format.write a ++ rest = bytes

theorem Exact.read_write {format : Format α} (h : format.Exact) {a : α} (ha : format.fits a)
    (rest : List Byte) : format.read (format.write a ++ rest) = .ok (a, rest) :=
  h.read_iff.2 ⟨ha, rfl⟩

/-! ### Bytes and numbers -/

theorem byte_exact : byte.Exact := by
  refine ⟨fun {bytes b rest} => ?_⟩
  cases bytes with
  | nil => exact iff_of_false nofun fun h => nomatch h.2
  | cons head tail =>
    simp only [byte, Except.ok.injEq, Prod.mk.injEq, true_and, List.singleton_append,
      List.cons.injEq, eq_comm]

/-- The lowest byte of a number, and what is left of the number without it. -/
theorem digits_iff {b : Byte} {n high : Nat} :
    b.toNat + 256 * high = n ↔ BitVec.ofNat 8 n = b ∧ n / 256 = high := by
  have hb : b.toNat < 256 := b.isLt
  rw [← BitVec.toNat_inj, BitVec.toNat_ofNat]
  omega

theorem readNumber_ok_iff {count n : Nat} {bytes rest : List Byte} :
    readNumber count bytes = .ok (n, rest) ↔
      n < 256 ^ count ∧ Byte.littleEndian count n ++ rest = bytes := by
  induction count generalizing n bytes rest with
  | zero =>
    simp only [readNumber, Byte.littleEndian, Except.ok.injEq, Prod.mk.injEq, List.nil_append,
      Nat.pow_zero, Nat.lt_one_iff, eq_comm]
  | succ count ih =>
    cases bytes with
    | nil => exact iff_of_false nofun fun h => nomatch h.2
    | cons b tail =>
      simp only [readNumber, bind_ok_iff, Prod.exists, ih, pure_ok_iff, Prod.mk.injEq, digits_iff,
        Byte.littleEndian, List.cons_append, List.cons.injEq]
      have hsmall : n / 256 < 256 ^ count ↔ n < 256 ^ (count + 1) := by
        rw [Nat.div_lt_iff_lt_mul (by decide), Nat.pow_succ]
      constructor
      · rintro ⟨high, mid, ⟨hhigh, htail⟩, ⟨hb, hn⟩, hrest⟩
        subst hn hrest
        exact ⟨hsmall.1 hhigh, hb, htail⟩
      · rintro ⟨hn, hb, htail⟩
        exact ⟨n / 256, rest, ⟨hsmall.2 hn, htail⟩, ⟨hb, rfl⟩, rfl⟩

theorem number_exact (count : Nat) : (number count).Exact := ⟨readNumber_ok_iff⟩

/-! ### Composed formats -/

theorem Exact.pair {first : Format α} {second : Format β} (hfirst : first.Exact)
    (hsecond : second.Exact) : (first.pair second).Exact := by
  refine ⟨fun {bytes x rest} => ?_⟩
  obtain ⟨a, b⟩ := x
  simp only [Format.pair, bind_ok_iff, Prod.exists, pure_ok_iff, Prod.mk.injEq, hfirst.read_iff,
    hsecond.read_iff,     List.append_assoc]
  constructor
  · rintro ⟨_, mid, ⟨ha, hbytes⟩, _, _, ⟨hb, hmid⟩, ⟨rfl, rfl⟩, rfl⟩
    exact ⟨⟨ha, hb⟩, by rw [hmid, hbytes]⟩
  · rintro ⟨⟨ha, hb⟩, hbytes⟩
    exact ⟨a, _, ⟨ha, hbytes⟩, b, rest, ⟨hb, rfl⟩, ⟨rfl, rfl⟩, rfl⟩

theorem Exact.map {format : Format α} (h : format.Exact) {pack : α → β} {unpack : β → α}
    (hpack : ∀ b, pack (unpack b) = b) (hunpack : ∀ a, unpack (pack a) = a) :
    (format.map pack unpack).Exact := by
  refine ⟨fun {bytes b rest} => ?_⟩
  simp only [Format.map, bind_ok_iff, Prod.exists, pure_ok_iff, Prod.mk.injEq, h.read_iff]
  constructor
  · rintro ⟨a, _, ⟨ha, hbytes⟩, hb, hrest⟩
    subst hb hrest
    rw [hunpack]
    exact ⟨ha, hbytes⟩
  · rintro ⟨hb, hbytes⟩
    exact ⟨unpack b, rest, ⟨hb, hbytes⟩, hpack b, rfl⟩

/-- The place of a value among a few, each of which knows its place. -/
theorem choice_exact {values : List α} {ordinal : α → Nat} (hcount : values.length ≤ 256 ^ 4)
    (hordinal : ∀ i a, values[i]? = some a → ordinal a = i) : (choice values ordinal).Exact := by
  refine ⟨fun {bytes a rest} => ?_⟩
  simp only [choice, bind_ok_iff, Prod.exists, (number_exact 4).read_iff]
  constructor
  · rintro ⟨found, mid, ⟨hfound, hbytes⟩, h⟩
    cases hvalue : values[found]? with
    | none =>
      rw [hvalue] at h
      cases h
    | some b =>
      rw [hvalue, pure_ok_iff, Prod.mk.injEq] at h
      obtain ⟨rfl, rfl⟩ := h
      rw [hordinal found b hvalue]
      exact ⟨hvalue, hbytes⟩
  · rintro ⟨hvalue, hbytes⟩
    have hlt : ordinal a < values.length := (List.getElem?_eq_some_iff.1 hvalue).1
    refine ⟨ordinal a, rest, ⟨Nat.lt_of_lt_of_le hlt hcount, hbytes⟩, ?_⟩
    rw [hvalue]
    rfl

theorem Exact.either {first : Format α} {second : Format β} (hfirst : first.Exact)
    (hsecond : second.Exact) : (first.either second).Exact := by
  refine ⟨fun {bytes x rest} => ?_⟩
  simp only [Format.either, bind_ok_iff, Prod.exists, (number_exact 4).read_iff]
  constructor
  · rintro ⟨found, mid, ⟨hfound, hbytes⟩, h⟩
    split at h
    next =>
      obtain ⟨⟨a, _⟩, ha, h⟩ := bind_ok_iff.1 h
      cases h
      obtain ⟨ha, hmid⟩ := hfirst.read_iff.1 ha
      exact ⟨ha, by rw [List.append_assoc, hmid, hbytes]⟩
    next =>
      obtain ⟨⟨b, _⟩, hb, h⟩ := bind_ok_iff.1 h
      cases h
      obtain ⟨hb, hmid⟩ := hsecond.read_iff.1 hb
      exact ⟨hb, by rw [List.append_assoc, hmid, hbytes]⟩
    next => cases h
  · rintro ⟨hx, hbytes⟩
    cases x with
    | inl a =>
      rw [List.append_assoc] at hbytes
      refine ⟨0, _, ⟨Nat.pow_pos (by decide), hbytes⟩, ?_⟩
      rw [hfirst.read_write hx]
      rfl
    | inr b =>
      rw [List.append_assoc] at hbytes
      refine ⟨1, _, ⟨Nat.one_lt_pow (by decide) (by decide), hbytes⟩, ?_⟩
      rw [hsecond.read_write hx]
      rfl

theorem Exact.option {format : Format α} (h : format.Exact) : format.option.Exact := by
  refine ⟨fun {bytes x rest} => ?_⟩
  simp only [Format.option, bind_ok_iff, Prod.exists, byte_exact.read_iff]
  constructor
  · rintro ⟨tag, mid, ⟨_, hbytes⟩, hread⟩
    -- Only the bytes 0 and 1 stand for something, so the byte is the one that is written.
    split at hread
    next htag =>
      cases hread
      obtain rfl : tag = 0 := BitVec.eq_of_toNat_eq htag
      exact ⟨trivial, hbytes⟩
    next htag =>
      obtain rfl : tag = 1 := BitVec.eq_of_toNat_eq htag
      obtain ⟨⟨a, _⟩, ha, hread⟩ := bind_ok_iff.1 hread
      cases hread
      obtain ⟨ha, hmid⟩ := h.read_iff.1 ha
      exact ⟨ha, by rw [List.append_assoc, hmid, hbytes]⟩
    next => cases hread
  · rintro ⟨hx, hbytes⟩
    cases x with
    | none => exact ⟨0, rest, ⟨trivial, hbytes⟩, rfl⟩
    | some a =>
      rw [List.append_assoc] at hbytes
      refine ⟨1, _, ⟨trivial, hbytes⟩, ?_⟩
      change format.read _ >>= _ = _
      rw [h.read_write hx]
      rfl

theorem readMany_succ (format : Format α) (count : Nat) (done : List α) (bytes : List Byte) :
    readMany format (count + 1) done bytes =
      format.read bytes >>= fun x => readMany format count (x.1 :: done) x.2 := by
  rw [readMany]
  cases format.read bytes <;> rfl

theorem Exact.readMany_ok_iff {format : Format α} (h : format.Exact) {count : Nat}
    {done xs : List α} {bytes rest : List Byte} : readMany format count done bytes = .ok (xs, rest) ↔
      ∃ more, more.length = count ∧ (∀ x ∈ more, format.fits x) ∧ done.reverse ++ more = xs ∧
        more.flatMap format.write ++ rest = bytes := by
  induction count generalizing done bytes with
  | zero =>
    simp only [readMany, Except.ok.injEq, Prod.mk.injEq, List.length_eq_zero_iff, exists_eq_left,
      List.not_mem_nil, false_implies, implies_true, List.append_nil, List.flatMap_nil,
      List.nil_append, true_and, eq_comm]
  | succ count ih =>
    simp only [readMany_succ, bind_ok_iff, Prod.exists, h.read_iff, ih]
    constructor
    · rintro ⟨a, _, ⟨ha, hbytes⟩, more, hlength, hmore, hxs, hmid⟩
      refine ⟨a :: more, ?_, List.forall_mem_cons.2 ⟨ha, hmore⟩, ?_, ?_⟩
      · rw [List.length_cons, hlength]
      · rw [← hxs, List.reverse_cons, List.append_assoc, List.singleton_append]
      · rw [List.flatMap_cons, List.append_assoc, hmid, hbytes]
    · rintro ⟨more, hlength, hmore, hxs, hbytes⟩
      obtain ⟨a, more, rfl⟩ := List.exists_cons_of_length_eq_add_one hlength
      obtain ⟨ha, hmore⟩ := List.forall_mem_cons.1 hmore
      rw [List.flatMap_cons, List.append_assoc] at hbytes
      refine ⟨a, _, ⟨ha, hbytes⟩, more, Nat.succ.inj hlength, hmore, ?_, rfl⟩
      rw [← hxs, List.reverse_cons, List.append_assoc, List.singleton_append]

theorem Exact.list {format : Format α} (h : format.Exact) : format.list.Exact := by
  refine ⟨fun {bytes xs rest} => ?_⟩
  simp only [Format.list, bind_ok_iff, Prod.exists, (number_exact 8).read_iff, h.readMany_ok_iff,
    List.reverse_nil, List.nil_append]
  constructor
  · rintro ⟨_, _, ⟨hcount, hbytes⟩, more, hlength, hmore, hxs, hmid⟩
    subst hlength hxs
    exact ⟨⟨hcount, hmore⟩, by rw [List.append_assoc, hmid, hbytes]⟩
  · rintro ⟨⟨hcount, hxs⟩, hbytes⟩
    rw [List.append_assoc] at hbytes
    exact ⟨_, _, ⟨hcount, hbytes⟩, xs, rfl, hxs, rfl, rfl⟩

end Microcontroller.Format
