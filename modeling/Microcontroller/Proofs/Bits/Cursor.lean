import Microcontroller.Bits.Cursor
/-!
# From both ends

A cursor stands for the bits that it has not handed out yet, a list that loses its first bit or its last
one by each pull. So the bits that come from the front are the first ones of the field, those from the
back are the last ones, in reverse, and when the two ends meet every bit has been handed out once. From
then on nothing is handed out at either end.
-/

namespace Microcontroller

namespace BitField

theorem length_bits (f : BitField) : f.bits.length = f.len := by
  rw [bits, List.length_map, List.length_range]

/-- The bits in order are those that can be read by their index. -/
theorem getElem?_bits (f : BitField) (i : Nat) : f.bits[i]? = (f.get i).toOption := by
  rw [bits, List.getElem?_map, get]
  split
  next hi =>
    rw [List.getElem?_range hi]
    rfl
  next hi =>
    rw [List.getElem?_eq_none (List.length_range ▸ Nat.le_of_not_lt hi)]
    rfl

theorem get_of_getElem?_bits {f : BitField} {i : Nat} {b : Bool} (h : f.bits[i]? = some b) :
    f.get i = .ok b := by
  rw [getElem?_bits] at h
  cases hget : f.get i with
  | error e =>
    rw [hget] at h
    cases h
  | ok b' =>
    rw [hget] at h
    cases h
    rfl

end BitField

namespace BitCursor

deriving instance DecidableEq for Side

/-! ### What is left to read -/

/-- The bits that have not been handed out, in order. -/
def unread (c : BitCursor) : List Bool :=
  (List.range' c.front c.remaining).map c.field.bit

theorem length_unread (c : BitCursor) : c.unread.length = c.remaining := by
  rw [unread, List.length_map, List.length_range']

theorem unread_start (f : BitField) : (start f).unread = f.bits := by
  rw [unread, BitField.bits, List.range_eq_range']
  rfl

theorem unread_eq_nil_iff {c : BitCursor} : c.unread = [] ↔ ¬ c.front < c.back := by
  rw [← List.length_eq_zero_iff, length_unread, remaining]
  omega

/-- What is left is shorter by the bit that a pull takes away at its side, if there is one. -/
inductive Pulled (c : BitCursor) : Side → Option Bool × BitCursor → Prop where
  | nothing {side : Side} (h : c.unread = []) : Pulled c side (none, c)
  | first {b : Bool} {c' : BitCursor} (h : c.unread = b :: c'.unread) : Pulled c .front (some b, c')
  | last {b : Bool} {c' : BitCursor} (h : c.unread = c'.unread ++ [b]) : Pulled c .back (some b, c')

theorem pulled (c : BitCursor) (side : Side) : c.Pulled side (c.pull side) := by
  cases side with
  | front =>
    rw [pull, next]
    split
    next hlt =>
      have hremaining : c.remaining = c.back - (c.front + 1) + 1 := by
        rw [remaining]
        omega
      refine .first ?_
      rw [unread, hremaining, List.range'_succ, List.map_cons]
      rfl
    next hend => exact .nothing (unread_eq_nil_iff.2 hend)
  | back =>
    rw [pull, nextBack]
    split
    next hlt =>
      have hremaining : c.remaining = c.back - 1 - c.front + 1 := by
        rw [remaining]
        omega
      have hlast : c.front + (c.back - 1 - c.front) = c.back - 1 := by omega
      refine .last ?_
      rw [unread, hremaining, List.range'_1_concat, List.map_append, hlast]
      rfl
    next hend => exact .nothing (unread_eq_nil_iff.2 hend)

section

variable {c c' : BitCursor} {side : Side} {b : Bool}

/-- Nothing comes from a cursor only if nothing is left, and then it stays as it is. -/
theorem Pulled.of_none (h : c.Pulled side (none, c')) : c.unread.length = 0 ∧ c' = c := by
  cases h with
  | nothing h => exact ⟨List.length_eq_zero_iff.2 h, rfl⟩

theorem Pulled.length_of_some (h : c.Pulled side (some b, c')) :
    c.unread.length = c'.unread.length + 1 := by
  cases h with
  | first h => rw [h, List.length_cons]
  | last h => rw [h, List.length_append, List.length_singleton]

end

/-! ### A series of pulls -/

/-- Of the results of a series of pulls, the bits that came from one end. -/
def handedOut (side : Side) (sides : List Side) (results : List (Option Bool × Nat)) : List Bool :=
  (sides.zip results).filterMap fun (s, bit, _) => if s = side then bit else none

theorem handedOut_cons_none (side s : Side) (sides : List Side) (n : Nat)
    (results : List (Option Bool × Nat)) :
    handedOut side (s :: sides) ((none, n) :: results) = handedOut side sides results := by
  rw [handedOut, List.zip_cons_cons, List.filterMap_cons_none]
  · rfl
  · exact ite_self none

theorem handedOut_cons_some (side s : Side) (sides : List Side) (b : Bool) (n : Nat)
    (results : List (Option Bool × Nat)) :
    handedOut side (s :: sides) ((some b, n) :: results) =
      if s = side then b :: handedOut side sides results else handedOut side sides results := by
  rw [handedOut, List.zip_cons_cons]
  split
  next h => exact List.filterMap_cons_some (if_pos h)
  next h => exact List.filterMap_cons_none (if_neg h)

theorem pulls_cons (c : BitCursor) (side : Side) (sides : List Side) :
    c.pulls (side :: sides) =
      ((c.pull side).1, (c.pull side).2.remaining) :: (c.pull side).2.pulls sides := rfl

theorem length_pulls (c : BitCursor) (sides : List Side) : (c.pulls sides).length = sides.length := by
  induction sides generalizing c with
  | nil => rfl
  | cons side sides ih => rw [pulls_cons, List.length_cons, List.length_cons, ih]

/-- Nothing is lost and nothing comes twice: what was handed out at the front, what is still left, and
what was handed out at the back, the last of it first, are the bits that there were. -/
theorem handedOut_append (c : BitCursor) (sides : List Side) :
    ∃ rest, handedOut .front sides (c.pulls sides) ++ rest ++
        (handedOut .back sides (c.pulls sides)).reverse = c.unread ∧
      rest.length = c.unread.length - sides.length := by
  induction sides generalizing c with
  | nil => exact ⟨c.unread, List.append_nil _, rfl⟩
  | cons side sides ih =>
    have hpulled := c.pulled side
    rw [pulls_cons]
    generalize c.pull side = result at hpulled ⊢
    cases hpulled with
    | nothing h =>
      obtain ⟨rest, hrest, hlength⟩ := ih c
      simp only [handedOut_cons_none]
      refine ⟨rest, hrest, ?_⟩
      rw [hlength, h, List.length_nil, Nat.zero_sub, Nat.zero_sub]
    | @first b c' h =>
      obtain ⟨rest, hrest, hlength⟩ := ih c'
      refine ⟨rest, ?_, ?_⟩
      · rw [handedOut_cons_some, handedOut_cons_some, if_pos rfl, if_neg (by decide), h, ← hrest]
        rfl
      · rw [hlength, h, List.length_cons, List.length_cons, Nat.add_sub_add_right]
    | @last b c' h =>
      obtain ⟨rest, hrest, hlength⟩ := ih c'
      refine ⟨rest, ?_, ?_⟩
      · rw [handedOut_cons_some, handedOut_cons_some, if_neg (by decide), if_pos rfl,
          List.reverse_cons, ← List.append_assoc, hrest, h]
      · rw [hlength, h, List.length_append, List.length_singleton, List.length_cons,
          Nat.add_sub_add_right]

/-- Bits that were handed out. -/
def successes (results : List (Option Bool × Nat)) : Nat := results.countP (·.1.isSome)

/-- A pull hands out a bit as long as there have been fewer pulls than there were bits, and what is
counted as left is what has not been handed out. -/
theorem pulls_nth (c : BitCursor) (sides : List Side) {k : Nat} {r : Option Bool × Nat}
    (h : (c.pulls sides)[k]? = some r) : (r.1.isSome ↔ k < c.unread.length) ∧
      r.2 + successes ((c.pulls sides).take (k + 1)) = c.unread.length := by
  induction sides generalizing c k with
  | nil => cases h
  | cons side sides ih =>
    have hpulled := c.pulled side
    rw [pulls_cons] at h ⊢
    generalize c.pull side = result at hpulled h ⊢
    obtain ⟨_ | b, c'⟩ := result
    · obtain ⟨hempty, rfl⟩ := hpulled.of_none
      rw [List.take_succ_cons, successes, List.countP_cons_of_neg Bool.false_ne_true]
      cases k with
      | zero =>
        cases h
        rw [← length_unread, hempty]
        exact ⟨iff_of_false nofun (Nat.lt_irrefl 0), rfl⟩
      | succ k =>
        obtain ⟨hbit, hleft⟩ := ih _ h
        refine ⟨hbit.trans ?_, hleft⟩
        rw [hempty]
        omega
    · rw [List.take_succ_cons, successes, List.countP_cons_of_pos rfl, ← Nat.add_assoc,
        hpulled.length_of_some, Nat.add_right_cancel_iff]
      cases k with
      | zero =>
        cases h
        exact ⟨iff_of_true rfl (Nat.zero_lt_succ _), (length_unread _).symm⟩
      | succ k =>
        obtain ⟨hbit, hleft⟩ := ih _ h
        exact ⟨hbit.trans Nat.succ_lt_succ_iff.symm, hleft⟩

/-- Only pulls from one end, and only as many as there are bits, hand out bits of this end. -/
theorem length_handedOut (c : BitCursor) (side : Side) (sides : List Side) :
    (handedOut side sides (c.pulls sides)).length = (sides.take c.unread.length).count side := by
  induction sides generalizing c with
  | nil =>
    rw [List.take_nil]
    rfl
  | cons s sides ih =>
    have hpulled := c.pulled s
    rw [pulls_cons]
    generalize c.pull s = result at hpulled ⊢
    obtain ⟨_ | b, c'⟩ := result
    · obtain ⟨hempty, rfl⟩ := hpulled.of_none
      rw [handedOut_cons_none, ih, hempty]
      rfl
    · rw [handedOut_cons_some, hpulled.length_of_some, List.take_succ_cons, List.count_cons, ← ih]
      by_cases h : s = side
      · rw [if_pos h, if_pos (beq_iff_eq.2 h), List.length_cons]
      · rw [if_neg h, if_neg (mt beq_iff_eq.1 h), Nat.add_zero]

/-- Pulls from the front alone give the bits in order, and then nothing. -/
theorem pulls_front (c : BitCursor) (n : Nat) :
    (c.pulls (List.replicate n .front)).map Prod.fst = (List.range n).map (c.unread[·]?) := by
  induction n generalizing c with
  | zero => rfl
  | succ n ih =>
    have hpulled := c.pulled .front
    rw [List.replicate_succ, pulls_cons, List.map_cons, ih, List.range_succ_eq_map, List.map_cons,
      List.map_map]
    generalize c.pull .front = result at hpulled ⊢
    cases hpulled with
    | nothing h =>
      have hnone (i : Nat) : c.unread[i]? = none := by
        rw [h]
        rfl
      exact List.cons_eq_cons.2 ⟨(hnone 0).symm,
        List.map_congr_left fun i _ => (hnone i).trans (hnone (i + 1)).symm⟩
    | @first b c' h =>
      have hrest (i : Nat) : c.unread[i + 1]? = c'.unread[i]? := by
        rw [h, List.getElem?_cons_succ]
      have hfirst : c.unread[0]? = some b := by
        rw [h]
        rfl
      exact List.cons_eq_cons.2 ⟨hfirst.symm, List.map_congr_left fun i _ => (hrest i).symm⟩

/-! ### The whole field -/

/-- Reading a field from both ends, in any order of the ends. The first pulls succeed, as many as there
are bits, and no others; what is left is the length less those that did. Those from the front give the
bits from the first one on, those from the back the bits from the last one on, and together with what
is left, which is nothing once there were enough of them, they are all the bits. -/
theorem ends_meet (f : BitField) (sides : List Side) :
    let results := (start f).pulls sides
    let fronts := handedOut .front sides results
    let backs := handedOut .back sides results
    results.length = sides.length ∧
    (∀ k r, results[k]? = some r → (r.1.isSome ↔ k < f.len) ∧
      r.2 + successes (results.take (k + 1)) = f.len) ∧
    (fronts.length = (sides.take f.len).count .front ∧
      ∀ i b, fronts[i]? = some b → f.get i = .ok b) ∧
    (backs.length = (sides.take f.len).count .back ∧
      ∀ j b, backs[j]? = some b → f.get (f.len - 1 - j) = .ok b) ∧
    ∃ rest, fronts ++ rest ++ backs.reverse = f.bits ∧ rest.length = f.len - sides.length := by
  intro results fronts backs
  obtain ⟨rest, hrest, hlength⟩ := (start f).handedOut_append sides
  have hunread : (start f).unread.length = f.len := by rw [unread_start, BitField.length_bits]
  have hcount (side : Side) := (start f).length_handedOut side sides
  rw [unread_start] at hrest
  rw [hunread] at hlength
  simp only [hunread] at hcount
  refine ⟨length_pulls _ sides, fun k r hr => hunread ▸ (start f).pulls_nth sides hr,
    ⟨hcount .front, fun i b hb => ?_⟩, ⟨hcount .back, fun j b hb => ?_⟩, rest, hrest, hlength⟩
  · obtain ⟨hi, -⟩ := List.getElem?_eq_some_iff.1 hb
    apply BitField.get_of_getElem?_bits
    rw [← hrest, List.append_assoc, List.getElem?_append_left hi]
    exact hb
  · obtain ⟨hj, -⟩ := List.getElem?_eq_some_iff.1 hb
    have hreverse : f.bits.reverse = backs ++ (fronts ++ rest).reverse := by
      rw [← hrest, List.reverse_append, List.reverse_reverse]
    have hlast : f.bits.reverse[j]? = some b := by
      rw [hreverse, List.getElem?_append_left hj]
      exact hb
    have hlt : j < f.bits.length := by
      obtain ⟨hlt, -⟩ := List.getElem?_eq_some_iff.1 hlast
      exact List.length_reverse ▸ hlt
    rw [List.getElem?_reverse hlt, BitField.length_bits] at hlast
    exact BitField.get_of_getElem?_bits hlast

/-- Five bits, of which the first and the fourth are set, read by seven pulls. The last two come when
the ends have met. -/
theorem ends_meet_uneven :
    let f : BitField := ⟨5, #[0x90]⟩
    let sides : List Side := [.back, .front, .front, .back, .front, .back, .front]
    let results := (start f).pulls sides
    let fronts := handedOut .front sides results
    let backs := handedOut .back sides results
    results = [(some false, 4), (some true, 3), (some false, 2), (some true, 1), (some false, 0),
      (none, 0), (none, 0)] ∧
      fronts.length = 3 ∧ backs.length = 2 ∧ fronts[2]? = some false ∧ f.get 2 = .ok false ∧
      backs[1]? = some true ∧ f.get (5 - 1 - 1) = .ok true ∧ fronts ++ backs.reverse = f.bits := by
  intro f sides results fronts backs
  have hfront : fronts[2]? = some false := by decide
  have hback : backs[1]? = some true := by decide
  obtain ⟨-, -, ⟨hfronts, hfirst⟩, ⟨hbacks, hlast⟩, rest, hall, hrest⟩ := ends_meet f sides
  rw [List.eq_nil_of_length_eq_zero hrest, List.append_nil] at hall
  exact ⟨by decide, hfronts, hbacks, hfront, hfirst 2 false hfront, hback, hlast 1 true hback, hall⟩

end BitCursor

end Microcontroller
