import Mathlib.Data.List.Forall2
/-!
# Checks in sequence

A sequence of checks succeeds exactly if each of them does. These equations take such a sequence
apart one check at a time, so that no proof has to look at how it is written.
-/

namespace Microcontroller

variable {α β ε ε' : Type}

@[simp] theorem pure_ok_iff {a b : α} : (pure a : Except ε α) = .ok b ↔ a = b := by
  simp only [pure, Except.pure, Except.ok.injEq]

@[simp] theorem bind_ok_iff {check : Except ε α} {next : α → Except ε β} {b : β} :
    (check >>= next) = .ok b ↔ ∃ a, check = .ok a ∧ next a = .ok b := by
  cases check <;> simp only [bind, Except.bind, Except.ok.injEq, reduceCtorEq, exists_eq_left',
    false_and, exists_false]

/-- Two checks fail as the first that does. -/
theorem bind_error_iff {check : Except ε α} {next : α → Except ε β} {e : ε} :
    (check >>= next) = .error e ↔
      check = .error e ∨ ∃ a, check = .ok a ∧ next a = .error e := by
  cases check <;> simp only [bind, Except.bind, Except.error.injEq, reduceCtorEq, Except.ok.injEq,
    exists_eq_left', false_and, exists_false, or_false, false_or]

@[simp] theorem map_ok_iff {check : Except ε α} {f : α → β} {b : β} :
    check.map f = .ok b ↔ ∃ a, check = .ok a ∧ f a = b := by
  cases check <;> simp only [Except.map, Except.ok.injEq, reduceCtorEq, exists_eq_left', false_and,
    exists_false]

@[simp] theorem mapError_ok_iff {check : Except ε α} {f : ε → ε'} {b : α} :
    check.mapError f = .ok b ↔ check = .ok b := by
  cases check with
  | error e => exact iff_of_false nofun nofun
  | ok a =>
    change (Except.ok a : Except ε' α) = .ok b ↔ _
    rw [Except.ok.injEq, Except.ok.injEq]

theorem exists_error_iff {check : Except ε α} : (∃ e, check = .error e) ↔ ¬ ∃ a, check = .ok a := by
  cases check with
  | error e => exact iff_of_true ⟨e, rfl⟩ nofun
  | ok a => exact iff_of_false nofun fun h => h ⟨a, rfl⟩

theorem forM_ok_iff {check : α → Except ε Unit} {xs : List α} {u : Unit} :
    xs.forM check = .ok u ↔ ∀ x ∈ xs, check x = .ok () := by
  induction xs with
  | nil => simp only [List.forM, pure_ok_iff, List.not_mem_nil, false_implies, implies_true]
  | cons x xs ih =>
    change (check x >>= fun _ => xs.forM check) = _ ↔ _
    rw [bind_ok_iff, List.forall_mem_cons, ih]
    exact ⟨fun ⟨_, hx, hxs⟩ => ⟨hx, hxs⟩, fun ⟨hx, hxs⟩ => ⟨(), hx, hxs⟩⟩

/-- Where one knows when a check succeeds and what it then gives, one knows it of a list of checks. -/
theorem mapM_ok_iff {f : α → Except ε β} {P : α → Prop} {g : α → β}
    (hf : ∀ x y, f x = .ok y ↔ P x ∧ g x = y) {xs : List α} {ys : List β} :
    xs.mapM f = .ok ys ↔ (∀ x ∈ xs, P x) ∧ xs.map g = ys := by
  induction xs generalizing ys with
  | nil =>
    rw [List.mapM_nil, pure_ok_iff, List.map_nil]
    exact (and_iff_right nofun).symm
  | cons x xs ih =>
    simp only [List.mapM_cons, bind_ok_iff, hf, ih, pure_ok_iff, List.forall_mem_cons, List.map_cons]
    constructor
    · rintro ⟨_, ⟨hx, rfl⟩, _, ⟨hxs, rfl⟩, hys⟩
      exact ⟨⟨hx, hxs⟩, hys⟩
    · rintro ⟨⟨hx, hxs⟩, hys⟩
      exact ⟨_, ⟨hx, rfl⟩, _, ⟨hxs, rfl⟩, hys⟩

theorem mapM_ok_iff_forall₂ {f : α → Except ε β} {xs : List α} {ys : List β} :
    xs.mapM f = .ok ys ↔ List.Forall₂ (fun x y => f x = .ok y) xs ys := by
  induction xs generalizing ys with
  | nil =>
    rw [List.mapM_nil, pure_ok_iff, List.forall₂_nil_left_iff]
    exact eq_comm
  | cons x xs ih =>
    simp only [List.mapM_cons, bind_ok_iff, ih, pure_ok_iff, List.forall₂_cons_left_iff]
    constructor
    · rintro ⟨y, hx, ys, hxs, rfl⟩
      exact ⟨y, ys, hx, hxs, rfl⟩
    · rintro ⟨y, ys, hx, hxs, rfl⟩
      exact ⟨y, hx, ys, hxs, rfl⟩

/-! ### What a failed check can say -/

/-- Every error of a check satisfies `P`. -/
def Fails (P : ε → Prop) (check : Except ε α) : Prop := ∀ e, check = .error e → P e

section

variable {P : ε → Prop}

theorem fails_ok (a : α) : Fails P (.ok a) := fun _ h => nomatch h

theorem fails_error {e : ε} (h : P e) : Fails P (.error e : Except ε α) := by
  intro _ heq
  cases heq
  exact h

theorem Fails.bind {check : Except ε α} {next : α → Except ε β} (hcheck : Fails P check)
    (hnext : ∀ a, check = .ok a → Fails P (next a)) : Fails P (check >>= next) := by
  cases check with
  | error e => exact fun _ h => hcheck _ (by cases h; rfl)
  | ok a => exact hnext a rfl

theorem Fails.map {check : Except ε α} (hcheck : Fails P check) (f : α → β) :
    Fails P (check.map f) := by
  cases check with
  | error e => exact fun _ h => hcheck _ (by cases h; rfl)
  | ok a => exact fails_ok _

theorem fails_forM {check : α → Except ε Unit} {xs : List α} (h : ∀ x ∈ xs, Fails P (check x)) :
    Fails P (xs.forM check) := by
  induction xs with
  | nil => exact fails_ok ()
  | cons x xs ih =>
    obtain ⟨hx, hxs⟩ := List.forall_mem_cons.1 h
    exact hx.bind fun _ _ => ih hxs

end

/-- A change that may be refused keeps whatever holds before it and after it if it is made. -/
theorem getD_toOption {P : α → Prop} {change : Except ε α} {a : α} (before : P a)
    (after : ∀ b, change = .ok b → P b) : P (change.toOption.getD a) := by
  cases change with
  | error e => exact before
  | ok b => exact after b rfl

end Microcontroller
