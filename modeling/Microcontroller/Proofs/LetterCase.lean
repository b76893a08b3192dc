import Mathlib.Data.List.Forall2
import Microcontroller.Isa.Instruction
/-!
# Capitals and small letters

A table tells mnemonics apart by their capitals, and a listing shows them in small letters. Either way
two mnemonics come out the same if and only if they are one text but for the case of ASCII letters, so
whatever a table keeps apart is still apart in a listing.
-/

namespace Microcontroller

/-- A capital ASCII letter and its small form. -/
def IsCapitalOf (capital small : Char) : Prop :=
  'A'.toNat ≤ capital.toNat ∧ capital.toNat ≤ 'Z'.toNat ∧ small.toNat = capital.toNat + 32

/-- One character, or the two cases of one letter. -/
def SameLetter (a b : Char) : Prop :=
  a = b ∨ IsCapitalOf a b ∨ IsCapitalOf b a

/-- One text, but for the case of its letters. -/
def SameText (s t : String) : Prop :=
  List.Forall₂ SameLetter s.toList t.toList

theorem toNat_toUpper (c : Char) : c.toUpper.toNat =
    if 97 ≤ c.toNat ∧ c.toNat ≤ 122 then c.toNat - 32 else c.toNat := by
  unfold Char.toUpper
  split
  next h =>
    obtain ⟨hlow, hhigh⟩ : 97 ≤ c.toNat ∧ c.toNat ≤ 122 := h
    rw [if_pos ⟨hlow, hhigh⟩]
    change (c.val + ('A'.val - 'a'.val)).toNat = _
    rw [UInt32.toNat_add]
    change (c.toNat + 4294967264) % 2 ^ 32 = _
    omega
  next h => exact (if_neg h).symm

theorem toNat_toLower (c : Char) : c.toLower.toNat =
    if 65 ≤ c.toNat ∧ c.toNat ≤ 90 then c.toNat + 32 else c.toNat := by
  unfold Char.toLower
  split
  next h =>
    obtain ⟨hlow, hhigh⟩ : 65 ≤ c.toNat ∧ c.toNat ≤ 90 := h
    rw [if_pos ⟨hlow, hhigh⟩]
    change (c.val + ('a'.val - 'A'.val)).toNat = _
    rw [UInt32.toNat_add]
    change (c.toNat + 32) % 2 ^ 32 = _
    omega
  next h => exact (if_neg h).symm

theorem sameLetter_iff {a b : Char} : SameLetter a b ↔ a.toNat = b.toNat ∨
    (65 ≤ a.toNat ∧ a.toNat ≤ 90 ∧ b.toNat = a.toNat + 32) ∨
      (65 ≤ b.toNat ∧ b.toNat ≤ 90 ∧ a.toNat = b.toNat + 32) := by
  rw [Char.toNat_inj]
  rfl

theorem toUpper_eq_iff {a b : Char} : a.toUpper = b.toUpper ↔ SameLetter a b := by
  rw [← Char.toNat_inj, toNat_toUpper, toNat_toUpper, sameLetter_iff]
  split <;> split <;> omega

theorem toLower_eq_iff {a b : Char} : a.toLower = b.toLower ↔ SameLetter a b := by
  rw [← Char.toNat_inj, toNat_toLower, toNat_toLower, sameLetter_iff]
  split <;> split <;> omega

theorem map_eq_map_iff {α β : Type} {f : α → β} {xs ys : List α} :
    xs.map f = ys.map f ↔ List.Forall₂ (fun x y => f x = f y) xs ys := by
  rw [← List.forall₂_eq_eq_eq, List.forall₂_map_left_iff, List.forall₂_map_right_iff]

/-- Mnemonics with one key are one text, but for the case of its letters. -/
theorem key_eq_iff {s t : String} : Instruction.key s = Instruction.key t ↔ SameText s t := by
  simp only [Instruction.key, map_eq_map_iff, toUpper_eq_iff, SameText]

instance (s t : String) : Decidable (SameText s t) := decidable_of_iff _ key_eq_iff

theorem map_toLower_eq_iff {s t : String} :
    s.toList.map Char.toLower = t.toList.map Char.toLower ↔ SameText s t := by
  simp only [map_eq_map_iff, toLower_eq_iff, SameText]

end Microcontroller
