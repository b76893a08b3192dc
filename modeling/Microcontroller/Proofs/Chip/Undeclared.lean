import Microcontroller.Proofs.Chip.Reach
/-!
# Flags that a row does not declare

The outcome of an arithmetic instruction reaches only those flags that its row declares. The three
operations on single bits of the status register do not ask what is declared: they write the bit that
they are about. A flag that is not declared is therefore kept by a cycle, unless the instruction is one
of the three and the flag sits at this very bit. In a table where such rows declare what they write,
no flag changes that is not declared.
-/

namespace Microcontroller

namespace Decoded

variable {d : Decoded} {s : Storage} {layout : FlagLayout} {f : Flag}

/-- The value that an operation on single bits gives to a flag, be it declared or not. -/
def direct? (layout : FlagLayout) (d : Decoded) (s : Storage) (f : Flag) : Option Bool :=
  match d.instruction.operation with
  | .setFlag => if d.operand? .flagBit = some (layout.index f) then some true else none
  | .clearFlag => if d.operand? .flagBit = some (layout.index f) then some false else none
  | .bitStore =>
    if f = .transfer then do
      let rd ← d.operand? .destination
      let bit ← d.operand? .bit
      return (Plan.registerWord s rd).testBit bit
    else none
  | _ => none

theorem direct?_eq_none (h : ¬ d.WritesStatus layout (layout.index f)) :
    d.direct? layout s f = none := by
  rw [WritesStatus] at h
  push Not at h
  obtain ⟨hflag, hstore⟩ := h
  rw [direct?]
  split
  next hop => exact if_neg (hflag (by rw [hop]; decide))
  next hop => exact if_neg (hflag (by rw [hop]; decide))
  next hop => exact if_neg fun hf => hstore hop (congrArg layout.index hf)
  next => rfl

/-- An instruction that writes the status bit of a flag directly writes nothing else. -/
theorem allWrites_of_writesStatus {plan : Plan} (h : Plan.ofOperation d s layout = .ok plan)
    (hwrites : d.WritesStatus layout (layout.index f)) :
    ∃ v, d.direct? layout s f = some v ∧
      plan.allWrites layout = [.status (layout.index f) v] := by
  rcases hwrites with ⟨hop, hbit⟩ | ⟨hop, hindex⟩
  · rcases List.mem_pair.1 hop with hop | hop
    all_goals
      simp only [Plan.ofOperation, hop] at h
      obtain ⟨b, hb, h⟩ := bind_ok_iff.1 h
      obtain ⟨hb, -⟩ := Plan.statusBit_ok_iff.1 hb
      cases hbit.symm.trans hb
      cases h
      refine ⟨_, ?_, rfl⟩
      rw [direct?, hop]
      exact if_pos hbit
  · simp only [Plan.ofOperation, hop] at h
    obtain ⟨b, hb, h⟩ := bind_ok_iff.1 h
    obtain ⟨hb, -⟩ := Plan.registerBit_ok_iff.1 hb
    obtain ⟨word, hword, h⟩ := bind_ok_iff.1 h
    obtain ⟨rd, ⟨hrd, -⟩, rfl⟩ := Plan.register_ok_iff.1 hword
    obtain rfl := layout.index_injective hindex
    cases h
    refine ⟨_, ?_, rfl⟩
    rw [direct?, hop]
    simp only [hrd, hb, if_true]
    rfl

end Decoded

namespace Chip

variable {set : InstructionSet} {c : Chip} {row : Instruction} {plan : Plan} {f : Flag}

theorem Conforms.flag_eq_iff {config : Config} (hc : c.Conforms set config) (f : Flag) (v : Bool) :
    c.flag f = v ↔ c.storage.valueAt (.status (set.flags.index f)) = v.toNat := by
  rw [hc.flag_eq, Storage.valueAt]
  cases c.storage.status.bit (set.flags.index f) <;> cases v <;> decide

/-- After a cycle a flag that is not declared has the value that the instruction gives to it directly,
or else the value it had. -/
theorem CarriesOut.flag_of_not_declared (hx : c.CarriesOut set row plan)
    (hc : c.Conforms set c.config) (hf : row.modifies f = false) :
    c.cycle.2.flag f = ((c.decodedAs row).direct? set.flags c.storage f).getD (c.flag f) := by
  rw [hc.cycle.flag_eq_iff]
  by_cases hwrites : (c.decodedAs row).WritesStatus set.flags (set.flags.index f)
  · obtain ⟨v, hv, hall⟩ := Decoded.allWrites_of_writesStatus hx.planned hwrites
    have hupdated := hx.updated hc (hall ▸ List.pairwise_singleton _ _)
    rw [Plan.changes, hall] at hupdated
    rw [hv, Option.getD_some]
    exact (hupdated.changed (.status (set.flags.index f)) v.toNat (List.mem_singleton.2 rfl)).2
  · have hplace : ¬ (c.decodedAs row).Reaches set.flags c.storage (.status (set.flags.index f)) := by
      rintro (⟨g, hg, hindex⟩ | h)
      · obtain rfl := set.flags.index_injective hindex
        rw [Instruction.modifies, List.contains_eq_mem, decide_eq_false_iff_not] at hf
        exact hf hg
      · exact hwrites h
    rw [hx.kept hc hplace, Decoded.direct?_eq_none hwrites, Option.getD_none, ← hc.flag_eq_iff]

/-- What becomes of the flags that the executed row does not declare. They are all kept if and only if
the instruction gives none of them directly a value that it does not already have. -/
theorem undeclared_flags (hc : Reachable set c) {flow : Flow} (h : c.cycle.1 = .ok flow) :
    ∃ row, c.rowAt? c.storage.ip = some row ∧
      (∀ f, row.modifies f = false → c.cycle.2.flag f =
        ((c.decodedAs row).direct? set.flags c.storage f).getD (c.flag f)) ∧
      ((∀ f, row.modifies f = false → c.cycle.2.flag f = c.flag f) ↔
        ∀ f v, row.modifies f = false →
          (c.decodedAs row).direct? set.flags c.storage f = some v → c.flag f = v) := by
  obtain ⟨row, plan, hx⟩ := hc.conforms.exists_carriesOut h
  have hvalue (f : Flag) (hf : row.modifies f = false) := hx.flag_of_not_declared hc.conforms hf
  refine ⟨row, hx.here, hvalue, ?_, ?_⟩
  · intro hkept f v hf hv
    rw [← hkept f hf, hvalue f hf, hv]
    rfl
  · intro hdirect f hf
    rw [hvalue f hf]
    cases hv : (c.decodedAs row).direct? set.flags c.storage f with
    | none => rfl
    | some v => exact (hdirect f v hf hv).symm

/-- A table with rows that raise a flag and store a bit, and declare neither. -/
def quiet : InstructionSet where
  name := "quiet"
  flags := FlagLayout.inOrder
  table := ⟨[⟨"RAISE", 0x01, .setFlag, [.flagBit], [], none, "Raise a flag that is not declared"⟩,
    ⟨"STORE", 0x02, .bitStore, [.destination, .bit], [], none, "Store a bit that is not declared"⟩],
    by decide, by decide⟩

def quietConfig : Config := { Config.m1047 with registers := 1, ram := 3, rom := 0, mapped := 0 }

/-- A chip with a program in RAM. -/
def quietChip (program : List Nat) : Chip :=
  (blank quiet quietConfig .w8 .halt).perform (.loadProgram 0 program)

theorem quietChip_reachable (program : List Nat) : Reachable quiet (quietChip program) := by
  have hnew : new quiet quietConfig .halt = .ok (blank quiet quietConfig .w8 .halt) := rfl
  exact .perform _ (.new hnew)

/-- Storing a bit that is set changes the transfer flag, which was down. -/
theorem undeclared_flags_store :
    let c := (quietChip [2, 0, 0]).perform (.setRegister 0 1)
    Reachable quiet c ∧ c.cycle.1 = .ok .next ∧ c.flag .transfer = false ∧
      ∃ row, c.rowAt? 0 = some row ∧ row.modifies .transfer = false ∧
        (c.decodedAs row).direct? quiet.flags c.storage .transfer = some true ∧
        c.cycle.2.flag .transfer = true := by
  intro c
  have hc : Reachable quiet c := .perform _ (quietChip_reachable _)
  have hok : c.cycle.1 = .ok .next := by decide +kernel
  have hflag : c.flag .transfer = false := by decide +kernel
  obtain ⟨row, hrow, hvalue, -⟩ := undeclared_flags hc hok
  have hmodifies : row.modifies .transfer = false := by
    cases hrow
    decide
  have hdirect : (c.decodedAs row).direct? quiet.flags c.storage .transfer = some true := by
    cases hrow
    decide +kernel
  refine ⟨hc, hok, hflag, row, hrow, hmodifies, hdirect, ?_⟩
  rw [hvalue .transfer hmodifies, hdirect]
  rfl

/-- Flags that are not declared are not always kept: a cycle raises the carry here. -/
theorem not_undeclared_kept :
    ¬ ∀ (set : InstructionSet) (c : Chip), Reachable set c → ∀ flow row, c.cycle.1 = .ok flow →
      c.rowAt? c.storage.ip = some row → ∀ f, row.modifies f = false →
        c.cycle.2.flag f = c.flag f := by
  intro hkept
  have hok : (quietChip [1, 1]).cycle.1 = .ok .next := by decide +kernel
  have hbefore : (quietChip [1, 1]).flag .carry = false := by decide +kernel
  have hafter : (quietChip [1, 1]).cycle.2.flag .carry = true := by decide +kernel
  have hsame := hkept quiet _ (quietChip_reachable [1, 1]) .next _ hok rfl .carry rfl
  rw [hbefore, hafter] at hsame
  cases hsame

end Chip

end Microcontroller
