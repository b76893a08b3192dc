import Microcontroller.Isa.Operand
/-!
# Pointers and their registers

Pointers are numbered from 0 to 2. A pointer is there where the bank has its pair of registers, which
is counted from the top of the bank.
-/

namespace Microcontroller.Pointer

variable {x registers : Nat} {p : Pointer} {pair : Nat × Nat}

theorem index_le (p : Pointer) : p.index ≤ 2 := by
  cases p <;> decide

theorem ofIndex?_index (p : Pointer) : ofIndex? p.index = some p := by
  cases p <;> rfl

theorem ofIndex?_eq_some_iff : ofIndex? x = some p ↔ p.index = x := by
  constructor
  · intro h
    unfold ofIndex? at h
    split at h <;> cases h <;> rfl
  · intro h
    rw [← h, ofIndex?_index]

theorem exists_index_iff : (∃ p : Pointer, p.index = x) ↔ x ≤ 2 := by
  constructor
  · intro ⟨p, hp⟩
    exact hp ▸ p.index_le
  · intro h
    match x, h with
    | 0, _ => exact ⟨.x, rfl⟩
    | 1, _ => exact ⟨.y, rfl⟩
    | 2, _ => exact ⟨.z, rfl⟩

theorem pair?_eq_some_iff : p.pair? registers = some pair ↔ 6 - 2 * p.index ≤ registers ∧
    (registers - (6 - 2 * p.index), registers - (6 - 2 * p.index) + 1) = pair := by
  unfold pair?
  dsimp only
  split
  next h => simp only [Option.some.injEq, h, true_and]
  next h => simp only [reduceCtorEq, h, false_and]

/-- The pair that a number stands for, if it stands for a pointer of the bank. -/
theorem pair?_ofIndex?_eq_some_iff : (ofIndex? x).bind (·.pair? registers) = some pair ↔
    (x ≤ 2 ∧ 6 - 2 * x ≤ registers) ∧
      (registers - (6 - 2 * x), registers - (6 - 2 * x) + 1) = pair := by
  rw [Option.bind_eq_some_iff]
  constructor
  · intro ⟨p, hp, hpair⟩
    obtain rfl := ofIndex?_eq_some_iff.1 hp
    obtain ⟨hle, hpair⟩ := pair?_eq_some_iff.1 hpair
    exact ⟨⟨p.index_le, hle⟩, hpair⟩
  · intro ⟨⟨hx, hle⟩, hpair⟩
    obtain ⟨p, rfl⟩ := exists_index_iff.2 hx
    exact ⟨p, p.ofIndex?_index, pair?_eq_some_iff.2 ⟨hle, hpair⟩⟩

end Microcontroller.Pointer
