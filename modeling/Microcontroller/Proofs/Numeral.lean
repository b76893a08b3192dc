import Microcontroller.Numeral
/-!
# Numerals read back

The digits of a number say which number it is, and the zeros that fill a field in front of them do not
change that. So no two numbers are written alike in one base and field, and as a numeral consists of
digits and a sign, the comma that comes after an operand ends it.
-/

namespace Microcontroller.Numeral

/-- What a digit counts for: the small letters come after the ten figures. -/
def digitValue (c : Char) : Nat :=
  if c.isDigit then c.toNat - '0'.toNat else c.toNat - 'a'.toNat + 10

/-- The number with these digits, the most significant first. -/
def ofDigits (base : Nat) (cs : List Char) : Nat :=
  cs.foldl (fun n c => base * n + digitValue c) 0

theorem ofDigits_concat (base : Nat) (cs : List Char) (c : Char) :
    ofDigits base (cs ++ [c]) = base * ofDigits base cs + digitValue c := by
  rw [ofDigits, List.foldl_append]
  rfl

theorem digitValue_digitChar {d : Nat} (h : d < 16) : digitValue d.digitChar = d := by
  revert d
  decide

/-- Zeros in front count for nothing. -/
theorem ofDigits_replicate_append (base k : Nat) (cs : List Char) :
    ofDigits base (List.replicate k '0' ++ cs) = ofDigits base cs := by
  have hzeros : ofDigits base (List.replicate k '0') = 0 := by
    induction k with
    | zero => rfl
    | succ k ih =>
      rw [List.replicate_succ', ofDigits_concat, ih]
      rfl
  unfold ofDigits at hzeros ⊢
  rw [List.foldl_append, hzeros]

section

variable {base : Nat} (hbase : 1 < base) (hle : base ≤ 16)
include hbase hle

theorem ofDigits_toDigits (n : Nat) : ofDigits base (Nat.toDigits base n) = n := by
  have hone (d : Nat) (hd : d < base) : ofDigits base [d.digitChar] = d := by
    rw [ofDigits, List.foldl_cons, List.foldl_nil, Nat.mul_zero, Nat.zero_add,
      digitValue_digitChar (Nat.lt_of_lt_of_le hd hle)]
  induction n using Nat.base_induction base hbase with
  | single d hd => rw [Nat.toDigits_of_lt_base hd, hone d hd]
  | digit n d hd hn ih =>
    rw [← Nat.toDigits_append_toDigits hbase hn hd, Nat.toDigits_of_lt_base hd, ofDigits_concat, ih,
      digitValue_digitChar (Nat.lt_of_lt_of_le hd hle)]

/-- A numeral can be read back, in a field of any width. -/
theorem ofDigits_digits (width n : Nat) : ofDigits base (digits base width n) = n := by
  rw [digits, List.leftpad, ofDigits_replicate_append, ofDigits_toDigits hbase hle]

theorem digits_inj {width n m : Nat} : digits base width n = digits base width m ↔ n = m := by
  constructor
  · intro h
    rw [← ofDigits_digits hbase hle width n, h, ofDigits_digits hbase hle]
  · exact fun h => h ▸ rfl

theorem exists_digitChar_of_mem {width n : Nat} {c : Char} (h : c ∈ digits base width n) :
    ∃ d < 16, Nat.digitChar d = c := by
  rw [digits, List.leftpad, List.mem_append] at h
  rcases h with hzero | hdigit
  · exact ⟨0, by decide, (List.eq_of_mem_replicate hzero).symm⟩
  · clear width
    induction n using Nat.base_induction base hbase with
    | single d hd =>
      rw [Nat.toDigits_of_lt_base hd] at hdigit
      exact ⟨d, Nat.lt_of_lt_of_le hd hle, (List.mem_singleton.1 hdigit).symm⟩
    | digit n d hd hn ih =>
      rw [← Nat.toDigits_append_toDigits hbase hn hd, List.mem_append,
        Nat.toDigits_of_lt_base hd] at hdigit
      rcases hdigit with hhead | hlast
      · exact ih hhead
      · exact ⟨d, Nat.lt_of_lt_of_le hd hle, (List.mem_singleton.1 hlast).symm⟩

theorem comma_notMem_digits (width n : Nat) : ',' ∉ digits base width n := by
  intro h
  obtain ⟨d, hd, hcomma⟩ := exists_digitChar_of_mem hbase hle h
  have hnone : ∀ d < 16, Nat.digitChar d ≠ ',' := by decide
  exact hnone d hd hcomma

end

/-! ### The spellings in use -/

theorem toList_decimal (n : Nat) : (decimal n).toList = digits 10 0 n := String.toList_ofList

theorem toList_hex (width n : Nat) : (hex width n).toList = '0' :: 'x' :: digits 16 width n := by
  simp only [hex, String.toList_append, String.toList_ofList]
  rfl

theorem toList_withSign (x : Int) :
    (withSign x).toList = (if x < 0 then '-' else '+') :: digits 10 0 x.natAbs := by
  rw [withSign, String.toList_append, toList_decimal]
  split <;> rfl

theorem decimal_inj {n m : Nat} : decimal n = decimal m ↔ n = m := by
  rw [← String.toList_inj, toList_decimal, toList_decimal, digits_inj (by decide) (by decide)]

theorem hex_inj {width n m : Nat} : hex width n = hex width m ↔ n = m := by
  rw [← String.toList_inj, toList_hex, toList_hex, List.cons_inj_right, List.cons_inj_right,
    digits_inj (by decide) (by decide)]

/-- A number with its sign shows which side of zero it is on, and how far off. -/
theorem withSign_inj {x y : Int} : withSign x = withSign y ↔ x = y := by
  rw [← String.toList_inj, toList_withSign, toList_withSign, List.cons.injEq,
    digits_inj (by decide) (by decide)]
  constructor
  · intro ⟨hsign, habs⟩
    split at hsign <;> split at hsign
    · omega
    · exact absurd hsign (by decide)
    · exact absurd hsign (by decide)
    · omega
  · exact fun h => h ▸ ⟨rfl, rfl⟩

theorem comma_notMem_decimal (n : Nat) : ',' ∉ (decimal n).toList := by
  rw [toList_decimal]
  exact comma_notMem_digits (by decide) (by decide) 0 n

theorem comma_notMem_hex (width n : Nat) : ',' ∉ (hex width n).toList := by
  have hdigits := comma_notMem_digits (by decide : 1 < 16) (by decide) width n
  rw [toList_hex, List.mem_cons, List.mem_cons, not_or, not_or]
  exact ⟨by decide, by decide, hdigits⟩

theorem comma_notMem_withSign (x : Int) : ',' ∉ (withSign x).toList := by
  have hdigits := comma_notMem_digits (by decide : 1 < 10) (by decide) 0 x.natAbs
  rw [toList_withSign, List.mem_cons, not_or]
  exact ⟨by split <;> decide, hdigits⟩

end Microcontroller.Numeral
