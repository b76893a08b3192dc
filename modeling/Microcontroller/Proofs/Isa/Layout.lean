import Mathlib.Data.List.Nodup
import Mathlib.Order.Bounds.Defs
import Microcontroller.Isa.Flag
import Microcontroller.Proofs.Isa.Encode
/-!
# The status register has room for every flag

A layout puts each flag at a bit of its own, and the status register is made as wide as the highest
of them asks for: the fewest whole bytes in which every flag has its bit. Nine positions are a layout
if and only if no two of them are the same, and then a bit belongs to one flag at most.
-/

namespace Microcontroller.FlagLayout

theorem le_foldr_max {xs : List Nat} {x : Nat} (h : x ∈ xs) : x ≤ xs.foldr max 0 := by
  induction xs with
  | nil => cases h
  | cons y ys ih =>
    rw [List.foldr_cons]
    rcases List.mem_cons.1 h with rfl | h
    · exact Nat.le_max_left _ _
    · exact Nat.le_trans (ih h) (Nat.le_max_right _ _)

theorem foldr_max_lt {xs : List Nat} {n : Nat} (hpos : 0 < n) (h : ∀ x ∈ xs, x < n) :
    xs.foldr max 0 < n := by
  induction xs with
  | nil => exact hpos
  | cons x xs ih =>
    obtain ⟨hx, hxs⟩ := List.forall_mem_cons.1 h
    exact Nat.max_lt.2 ⟨hx, ih hxs⟩

theorem index_lt_statusBits (l : FlagLayout) (f : Flag) : l.index f < l.statusBits := by
  have hle := le_foldr_max (List.mem_map_of_mem (f := l.index) f.mem_all)
  rw [statusBits]
  omega

/-- The register consists of whole bytes. -/
theorem eight_dvd_statusBits (l : FlagLayout) : 8 ∣ l.statusBits := Nat.dvd_mul_left 8 _

/-- Whole bytes that have room for every flag have as many bits as the register. -/
theorem statusBits_le_of_dvd (l : FlagLayout) {n : Nat} (hbytes : 8 ∣ n)
    (hroom : ∀ f, l.index f < n) : l.statusBits ≤ n := by
  have hmax : (Flag.all.map l.index).foldr max 0 < n :=
    foldr_max_lt (Nat.zero_lt_of_lt (hroom .zero)) (List.forall_mem_map.2 fun f _ => hroom f)
  rw [statusBits]
  omega

theorem statusBits_isLeast (l : FlagLayout) :
    IsLeast {n | 8 ∣ n ∧ ∀ f, l.index f < n} l.statusBits :=
  ⟨⟨l.eight_dvd_statusBits, l.index_lt_statusBits⟩, fun _ h => l.statusBits_le_of_dvd h.1 h.2⟩

/-- The position of a flag is a byte, so the register has at most a bit for each byte. -/
theorem statusBits_le (l : FlagLayout) : l.statusBits ≤ 256 :=
  l.statusBits_le_of_dvd (by decide) fun f => (l.position f).isLt

theorem index_injective (l : FlagLayout) {f g : Flag} (h : l.index f = l.index g) : f = g := by
  have hpos : l.position f = l.position g := BitVec.eq_of_toNat_eq h
  exact List.inj_on_of_nodup_map l.distinct f.mem_all g.mem_all hpos

/-! ### Layouts and positions -/

theorem ofPositions?_eq_some_iff {position : Flag → Byte} {l : FlagLayout} :
    ofPositions? position = some l ↔ l.position = position := by
  rw [ofPositions?]
  constructor
  · intro h
    split at h <;> cases h
    rfl
  · rintro rfl
    exact dif_pos l.distinct

theorem exists_ofPositions?_iff {position : Flag → Byte} :
    (∃ l, ofPositions? position = some l) ↔ ∀ f g, position f = position g → f = g := by
  constructor
  · rintro ⟨l, hl⟩ f g hfg
    obtain rfl := ofPositions?_eq_some_iff.1 hl
    exact List.inj_on_of_nodup_map l.distinct f.mem_all g.mem_all hfg
  · intro hinjective
    have hdistinct : (Flag.all.map position).Nodup :=
      List.Nodup.map (fun f g => hinjective f g) (by decide)
    exact ⟨⟨position, hdistinct⟩, dif_pos hdistinct⟩

theorem flagAt?_eq_some_iff {l : FlagLayout} {i : Nat} {f : Flag} :
    l.flagAt? i = some f ↔ l.index f = i := by
  have hindexes : (Flag.all.map l.index).Nodup :=
    List.Nodup.map (fun _ _ => l.index_injective) (by decide)
  rw [flagAt?, find?_key_iff hindexes]
  exact and_iff_right f.mem_all

end Microcontroller.FlagLayout
