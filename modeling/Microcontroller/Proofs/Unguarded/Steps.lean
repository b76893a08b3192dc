import Mathlib.Data.Nat.Bitwise
import Microcontroller.Bits.Byte
/-!
# Steps that nothing checks

Here the library is written once more, as a machine has to carry it out. What it reads of an array has
to be there, a difference of natural numbers has to be one, and a shift has to stay inside the width of
what is shifted; where this is not so the machine breaks off. Names that end in an exclamation mark are
computations of this kind. They take such steps without looking, behind the same checks as the library,
and are proved to come to what the library comes to: so no step of theirs goes wrong.

A computation may refuse to go on for reasons of its own. That is no misstep, but an answer like any
other.
-/

namespace Microcontroller

/-- A step that cannot be taken. -/
inductive Misstep where
  | index (i len : Nat)
  | slice (start stop len : Nat)
  | difference (a b : Nat)
  | shift (amount bits : Nat)
  deriving DecidableEq

/-- A computation that breaks off at the first misstep. -/
abbrev Unguarded (α : Type) := Except Misstep α

/-- What can keep a computation from its result. -/
inductive Obstacle (ε : Type) where
  | misstep (cause : Misstep)
  | refusal (cause : ε)

/-- A computation that breaks off at the first misstep, and may be refused before. -/
abbrev Refusable (ε α : Type) := Except (Obstacle ε) α

instance {ε : Type} : MonadLift Unguarded (Refusable ε) where
  monadLift u := u.mapError .misstep

namespace Unguarded

variable {α β ε : Type}

/-! ### The steps -/

def readAt (xs : Array α) (i : Nat) : Unguarded α :=
  match xs[i]? with
  | some x => .ok x
  | none => .error (.index i xs.size)

def modifyAt (xs : Array α) (i : Nat) (f : α → α) : Unguarded (Array α) :=
  if i < xs.size then .ok (xs.modify i f) else .error (.index i xs.size)

/-- The part of an array from `start` on and before `stop`. -/
def slice (xs : Array α) (start stop : Nat) : Unguarded (Array α) :=
  if start ≤ stop ∧ stop ≤ xs.size then .ok (xs.extract start stop)
  else .error (.slice start stop xs.size)

def sub (a b : Nat) : Unguarded Nat :=
  if b ≤ a then .ok (a - b) else .error (.difference a b)

/-- Shift a pattern of `bits` bits to the left; what leaves it at the top is lost. -/
def shiftLeft (bits x amount : Nat) : Unguarded Nat :=
  if amount < bits then .ok (x <<< amount % 2 ^ bits) else .error (.shift amount bits)

def shiftRight (bits x amount : Nat) : Unguarded Nat :=
  if amount < bits then .ok (x >>> amount) else .error (.shift amount bits)

theorem readAt_eq {xs : Array α} {i : Nat} {x : α} (h : xs[i]? = some x) :
    readAt xs i = .ok x := by
  rw [readAt, h]

theorem readAt_getD {xs : Array α} {i : Nat} (h : i < xs.size) (default : α) :
    readAt xs i = .ok (xs.getD i default) := by
  rw [readAt, Array.getD_eq_getD_getElem?, Array.getElem?_eq_getElem h]
  rfl

theorem modifyAt_eq {xs : Array α} {i : Nat} (h : i < xs.size) (f : α → α) :
    modifyAt xs i f = .ok (xs.modify i f) :=
  if_pos h

theorem slice_eq {xs : Array α} {start stop : Nat} (hstart : start ≤ stop) (hstop : stop ≤ xs.size) :
    slice xs start stop = .ok (xs.extract start stop) :=
  if_pos ⟨hstart, hstop⟩

theorem sub_eq {a b : Nat} (h : b ≤ a) : sub a b = .ok (a - b) := if_pos h

theorem shiftLeft_eq {bits amount : Nat} (h : amount < bits) (x : Nat) :
    shiftLeft bits x amount = .ok (x * 2 ^ amount % 2 ^ bits) := by
  rw [shiftLeft, if_pos h, Nat.shiftLeft_eq]

theorem shiftRight_eq {bits amount : Nat} (h : amount < bits) (x : Nat) :
    shiftRight bits x amount = .ok (x / 2 ^ amount) := by
  rw [shiftRight, if_pos h, Nat.shiftRight_eq_div_pow]

/-! ### One step after the other -/

@[simp] theorem ok_bind (a : α) (f : α → Except ε β) : (Except.ok a >>= f) = f a := rfl

theorem bind_eq {x : Except ε α} {a : α} (h : x = .ok a) (f : α → Except ε β) : (x >>= f) = f a := by
  rw [h, ok_bind]

theorem lift_eq {u : Unguarded α} {a : α} (h : u = .ok a) : (liftM u : Refusable ε α) = .ok a := by
  rw [h]
  rfl

theorem lift_bind_eq {u : Unguarded α} {a : α} (h : u = .ok a) (f : α → Refusable ε β) :
    ((liftM u : Refusable ε α) >>= f) = f a :=
  bind_eq (lift_eq h) f

theorem mapM_eq {f : α → Except ε β} {g : α → β} {xs : List α} (h : ∀ x ∈ xs, f x = .ok (g x)) :
    xs.mapM f = .ok (xs.map g) := by
  induction xs with
  | nil => rfl
  | cons x xs ih =>
    obtain ⟨hx, hxs⟩ := List.forall_mem_cons.1 h
    rw [List.mapM_cons, bind_eq hx, bind_eq (ih hxs)]
    rfl

/-- What every step of a series keeps, and what each step comes to where it is kept, settles what the
series comes to. -/
theorem foldlM_eq {f : α → β → Except ε α} {g : α → β → α} {P : α → Prop} {xs : List β}
    (hf : ∀ a, P a → ∀ x ∈ xs, f a x = .ok (g a x)) (hg : ∀ a, P a → ∀ x ∈ xs, P (g a x)) {a : α}
    (ha : P a) : xs.foldlM f a = .ok (xs.foldl g a) := by
  induction xs generalizing a with
  | nil => rfl
  | cons x xs ih =>
    rw [List.foldlM_cons, bind_eq (hf a ha x List.mem_cons_self)]
    exact ih (fun a ha y hy => hf a ha y (List.mem_cons_of_mem x hy))
      (fun a ha y hy => hg a ha y (List.mem_cons_of_mem x hy)) (hg a ha x List.mem_cons_self)

/-- What is written to one place after the other ends up each in its place. -/
theorem getElem?_foldl_modify (g : Nat → β → α) (ys : List β) (start i : Nat) (xs : Array α) :
    ((ys.zipIdx start).foldl (fun xs y => xs.modify y.2 fun _ => g y.2 y.1) xs)[i]? =
      if start ≤ i ∧ i < start + ys.length then xs[i]?.bind fun _ => ys[i - start]?.map (g i)
      else xs[i]? := by
  induction ys generalizing start xs with
  | nil => rw [if_neg (by simp only [List.length_nil]; omega)]; rfl
  | cons y ys ih =>
    rw [List.zipIdx_cons, List.foldl_cons, ih]
    simp only [Array.getElem?_modify, List.length_cons]
    by_cases hhead : start = i
    · subst hhead
      rw [if_neg (by omega), if_pos rfl, if_pos (by omega), Nat.sub_self]
      cases xs[start]? <;> rfl
    · have hrest : (start + 1 ≤ i ∧ i < start + 1 + ys.length) ↔
          (start ≤ i ∧ i < start + (ys.length + 1)) := by omega
      simp only [hrest, if_neg hhead]
      split
      next hin =>
        have hsucc : i - start = (i - (start + 1)) + 1 := by omega
        rw [hsucc, List.getElem?_cons_succ]
      next => rfl

end Unguarded

/-! ### Computations that may be refused -/

/-- A computation without any step that could go wrong. -/
def checked {ε α : Type} (result : Except ε α) : Refusable ε α := result.mapError .refusal

/-- What a computation came to, refused or not, unless it broke off at a misstep. -/
def settled {ε α : Type} : Refusable ε α → Unguarded (Except ε α)
  | .ok a => .ok (.ok a)
  | .error (.refusal e) => .ok (.error e)
  | .error (.misstep m) => .error m

section

variable {α β ε ε' : Type}

theorem settled_eq {x : Refusable ε α} {result : Except ε α} (h : x = checked result) :
    settled x = .ok result := by
  rw [h]
  cases result <;> rfl

theorem checked_ok_bind (a : α) (f : α → Refusable ε β) : (checked (.ok a) >>= f) = f a := rfl

theorem checked_bind {x : Refusable ε α} {result : Except ε α} {f : α → Refusable ε β}
    {g : α → Except ε β} (hx : x = checked result)
    (hf : ∀ a, result = .ok a → f a = checked (g a)) : (x >>= f) = checked (result >>= g) := by
  rw [hx]
  cases result with
  | error e => rfl
  | ok a => exact hf a rfl

theorem checked_forM {f : α → Refusable ε Unit} {g : α → Except ε Unit} {xs : List α}
    (h : ∀ x ∈ xs, f x = checked (g x)) : xs.forM f = checked (xs.forM g) := by
  induction xs with
  | nil => rfl
  | cons x xs ih =>
    obtain ⟨hx, hxs⟩ := List.forall_mem_cons.1 h
    exact checked_bind hx fun _ _ => ih hxs

end

end Microcontroller
