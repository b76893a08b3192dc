import Microcontroller.Proofs.AddressMap
import Microcontroller.Proofs.Chip.Reach
import Microcontroller.Proofs.Chip.Run
import Microcontroller.Proofs.M1047.Next
/-!
# The stack

An instruction that puts a word on the stack opens a bracket, one that takes a word off it closes the
last that is open. As long as nothing but these moves the stack pointer, nothing else writes RAM, and no
more brackets are open than there are addresses, a closing instruction finds the word that the matching
one has put there, wherever in the address space the stack is; and when all brackets are closed the
stack pointer is back.

The words of the open brackets lie one above the other from the stack pointer on, the last one lowest,
and the addresses wrap around. This is kept by every instruction: an opening one writes the address
below, which is none of theirs unless they go all the way round.
-/

namespace Microcontroller.M1047

/-- An instruction that was executed: the storage it found, where it went on, and what it left. -/
structure Execution where
  before : Storage
  instruction : Decoded
  flow : Flow
  after : Storage

namespace Execution

variable (x : Execution)

def mnemonic : String := x.instruction.instruction.mnemonic

def opens : Bool := x.mnemonic ∈ ["PUSH", "CALL"]

def closes : Bool := x.mnemonic ∈ ["POP", "RET"]

/-- The instruction gets at RAM or at the stack pointer in some other way. -/
def disturbs : Bool :=
  x.mnemonic ∈ ["ST", "STS"] || x.mnemonic = "OUT" && x.instruction.operand? .ioAddress = some 0x1D

/-- The instruction is one of the family's and was executed without a fault, on a chip with words of
width `w`. What the chip does with its instruction pointer and its cycle counter is left open. -/
structure Runs (w : Width) : Prop where
  mem : x.instruction.instruction ∈ rows
  fits : x.instruction.Fits w
  result : ∃ s ip cycles, x.before.execute instructionSet.flags x.instruction = (.ok x.flow, s) ∧
    ip < w.capacity ∧ x.after = { s with ip, cycles }

/-- The word that an opening instruction puts on the stack: the address behind a call, else what is in
the source register. -/
def Stores (w : Width) (word : Nat) : Prop :=
  if x.mnemonic = "CALL" then word = (x.before.ip + 2) % 2 ^ w.bits
  else ∃ r, x.instruction.operand? .source = some r ∧ x.before.registers.raw[r]? = some word

/-- A closing instruction has taken this word: it went on there, or it left it in the destination
register. -/
def Takes (word : Nat) : Prop :=
  if x.mnemonic = "RET" then x.flow = .jump word
  else ∃ r, x.instruction.operand? .destination = some r ∧ x.after.registers.raw[r]? = some word

end Execution

/-- One instruction after the other, from a first storage to a last one. -/
inductive Trace (w : Width) : Storage → List Execution → Storage → Prop
  | nil (s : Storage) : Trace w s [] s
  | cons (x : Execution) {xs : List Execution} {s : Storage} (hx : x.Runs w)
      (rest : Trace w x.after xs s) : Trace w x.before (x :: xs) s

/-- The closing instructions, each with the opening one that it matches, where the instructions of
`opened` are open already, the last one first. There are none if an instruction closes what is not
open, if something is left open, if more than `depth` are open at a time, or if the stack is
disturbed. -/
def matching (depth : Nat) (opened : List Execution) :
    List Execution → Option (List (Execution × Execution))
  | [] => if opened.isEmpty then some [] else none
  | x :: xs =>
    if x.disturbs then none
    else if x.opens then
      if opened.length < depth then matching depth (x :: opened) xs else none
    else if x.closes then
      match opened with
      | [] => none
      | o :: opened => (matching depth opened xs).map ((o, x) :: ·)
    else matching depth opened xs

/-! ### The address below -/

/-- The address below the one the stack pointer points to. -/
def below (w : Width) (sp : Nat) : Nat := w.wrap ((sp : Int) - 1)

theorem below_lt (w : Width) (sp : Nat) : below w sp < w.capacity := w.wrap_lt _

/-- Counting up from the address below is counting from one further up. -/
theorem below_add_succ (w : Width) (sp n : Nat) :
    (below w sp + (n + 1)) % w.capacity = (sp + n) % w.capacity := by
  have hbelow : (below w sp : Int) = ((sp : Int) - 1) % w.capacity := by
    rw [below, Width.natCast_wrap, Width.capacity, Int.natCast_pow]
    rfl
  rw [← Int.natCast_inj]
  push_cast
  rw [hbelow, Int.emod_add_emod]
  congr 1
  omega

/-! ### One instruction -/

theorem call_of_operation : ∀ row ∈ rows, row.operation = .call → row.mnemonic = "CALL" := by decide

theorem ret_of_operation : ∀ row ∈ rows, row.operation = .ret → row.mnemonic = "RET" := by decide

theorem store_of_operation : ∀ row ∈ rows, row.operation = .store → row.mnemonic ∈ ["ST", "STS"] := by
  decide

theorem output_of_operation : ∀ row ∈ rows, row.operation = .output → row.mnemonic = "OUT" := by decide

variable {config : Config} {w : Width} {x : Execution} {plan : Plan}

theorem Execution.Stores.lt {word : Nat} (h : x.Stores w word)
    (hs : x.before.Conforms config w instructionSet.statusBits) : word < w.capacity := by
  rw [Execution.Stores] at h
  split at h
  · rw [h]
    exact Nat.mod_lt _ w.capacity_pos
  · obtain ⟨r, -, hr⟩ := h
    exact hs.registers.lt word (Array.mem_of_getElem? hr)

/-- The execution carries out this plan. -/
structure Execution.CarriesOut (config : Config) (w : Width) (x : Execution) (plan : Plan) : Prop where
  mem : x.instruction.instruction ∈ rows
  width : x.instruction.width = w
  planned : Plan.ofOperation x.instruction x.before instructionSet.flags = .ok plan
  fits : plan.Fits config w instructionSet.statusBits
  flow : plan.flow = x.flow
  result : ∃ ip cycles, ip < w.capacity ∧
    x.after = { x.before.afterPlan instructionSet.flags plan with ip, cycles }

theorem Execution.Runs.exists_carriesOut (hx : x.Runs w)
    (hs : x.before.Conforms config w instructionSet.statusBits) :
    ∃ plan, x.CarriesOut config w plan := by
  obtain ⟨s, ip, cycles, hexecute, hip, hafter⟩ := hx.result
  have hroom : ∀ f, instructionSet.flags.index f < x.before.status.len := by
    rw [hs.status.length]
    exact instructionSet.flags.index_lt_statusBits
  rw [Storage.execute_eq _ hroom] at hexecute
  cases hplan : Plan.of x.instruction x.before instructionSet.flags with
  | error fault =>
    rw [hplan] at hexecute
    cases hexecute
  | ok plan =>
    rw [hplan] at hexecute
    obtain ⟨hflow, rfl⟩ := Prod.mk.inj hexecute
    have hfits := Plan.of_fits hs hx.fits hplan
    obtain ⟨_, -, hplanned⟩ := bind_ok_iff.1 hplan
    exact ⟨plan, hx.mem, hx.fits.width, hplanned, hfits, Except.ok.inj hflow, ip, cycles, hip, hafter⟩

namespace Execution.CarriesOut

variable (hx : x.CarriesOut config w plan)

include hx

theorem conforms (hs : x.before.Conforms config w instructionSet.statusBits) :
    x.after.Conforms config w instructionSet.statusBits := by
  obtain ⟨ip, cycles, hip, hafter⟩ := hx.result
  rw [hafter]
  exact { hs.afterPlan instructionSet.flags.index_lt_statusBits hx.fits with ip := hip }

theorem valueAt_after (place : Place) : x.after.valueAt place =
    (x.before.afterPlan instructionSet.flags plan).valueAt place := by
  obtain ⟨ip, cycles, -, hafter⟩ := hx.result
  rw [hafter]
  cases place <;> rfl

/-- What the instruction does not reach is as before. -/
theorem kept (hs : x.before.Conforms config w instructionSet.statusBits) {place : Place}
    (hplace : ¬ x.instruction.Reaches instructionSet.flags x.before place) :
    x.after.valueAt place = x.before.valueAt place :=
  (hx.valueAt_after place).trans (hs.kept_afterPlan hx.fits hx.planned hplace)

/-- RAM is written by stores, and by pushes and calls below the stack pointer. -/
theorem ram_kept (hs : x.before.Conforms config w instructionSet.statusBits) {a : Nat}
    (hstore : x.instruction.instruction.operation ≠ .store)
    (hpush : x.instruction.instruction.operation ∈ [.push, .call] → a ≠ below w x.before.sp) :
    x.after.valueAt (.ram a) = x.before.valueAt (.ram a) := by
  refine hx.kept hs ?_
  rintro (⟨hop, -⟩ | ⟨hop, ha⟩)
  · exact hstore hop
  · exact hpush hop (by rw [ha, hx.width, below])

/-- The plan of an opening instruction. -/
theorem exists_push (h : x.opens = true) : ∃ word flow, x.Stores w word ∧
    below w x.before.sp < x.before.memory.ram.size ∧
    plan = ⟨[.ram (below w x.before.sp) word,
      .stackPointer (below w x.before.sp)], [], flow⟩ := by
  have hplan := hx.planned
  have hops : x.instruction.instruction.operation ∈ [.push, .call] :=
    (push_mnemonic_iff _ hx.mem).1 (of_decide_eq_true h)
  rw [← hx.width]
  rcases List.mem_pair.1 hops with hop | hop
  all_goals simp only [Plan.ofOperation, hop] at hplan
  · obtain ⟨word, hword, hplan⟩ := bind_ok_iff.1 hplan
    obtain ⟨writes, hwrites, hplan⟩ := bind_ok_iff.1 hplan
    obtain ⟨hlt, rfl⟩ := Plan.push_ok_iff.1 hwrites
    obtain ⟨r, ⟨hr, hsize⟩, hword⟩ := Plan.register_ok_iff.1 hword
    have hnot : x.mnemonic ≠ "CALL" := fun hcall => by
      have hcall := form_of_control _ hx.mem (.call, [.address]) (by rw [← mnemonic, hcall]; rfl)
      cases hop.symm.trans hcall.1
    refine ⟨word, .next, ?_, hlt, (pure_ok_iff.1 hplan).symm⟩
    rw [Stores, if_neg hnot, ← hword]
    exact ⟨r, hr, Array.getElem?_eq_some_iff.2 ⟨hsize, (Array.getElem_eq_getD 0)⟩⟩
  · obtain ⟨target, -, hplan⟩ := bind_ok_iff.1 hplan
    obtain ⟨writes, hwrites, hplan⟩ := bind_ok_iff.1 hplan
    obtain ⟨hlt, rfl⟩ := Plan.push_ok_iff.1 hwrites
    have hcall : x.mnemonic = "CALL" := call_of_operation _ hx.mem hop
    refine ⟨_, .jump target, ?_, hlt, (pure_ok_iff.1 hplan).symm⟩
    rw [Stores, if_pos hcall, Decoded.size, call_size _ hx.mem hcall, ← Int.natCast_add,
      Width.wrap_natCast]
    rfl

/-- An opening instruction moves the stack pointer down and puts its word where it then points. -/
theorem opening (hs : x.before.Conforms config w instructionSet.statusBits) (h : x.opens = true) :
    x.after.sp = below w x.before.sp ∧
      x.Stores w (x.after.valueAt (.ram (below w x.before.sp))) ∧
      ∀ a, a ≠ below w x.before.sp → x.after.valueAt (.ram a) = x.before.valueAt (.ram a) := by
  have hops : x.instruction.instruction.operation ∈ [.push, .call] :=
    (push_mnemonic_iff _ hx.mem).1 (of_decide_eq_true h)
  have hstore : x.instruction.instruction.operation ≠ .store := by
    rcases List.mem_pair.1 hops with hop | hop <;> rw [hop] <;> decide
  obtain ⟨word, flow, hword, hlt, rfl⟩ := hx.exists_push h
  refine ⟨hx.valueAt_after .stackPointer, ?_, fun a ha => hx.ram_kept hs hstore fun _ => ha⟩
  have hput : (x.before.memory.ram.put (below w x.before.sp) word).raw.getD
      (below w x.before.sp) 0 = word := by
    rw [Cells.getD_put_self hlt, hs.memory.ram.width]
    exact Width.truncate_of_lt (hword.lt hs)
  rw [(hx.valueAt_after (.ram (below w x.before.sp))).trans hput]
  exact hword

/-- A closing instruction takes the word that the stack pointer points to, and moves it up. -/
theorem closing (hs : x.before.Conforms config w instructionSet.statusBits) (h : x.closes = true) :
    x.after.sp = (x.before.sp + 1) % w.capacity ∧
      x.Takes (x.before.valueAt (.ram x.before.sp)) ∧
      ∀ a, x.after.valueAt (.ram a) = x.before.valueAt (.ram a) := by
  have hplan := hx.planned
  have hdrop : Plan.drop x.instruction x.before = .stackPointer ((x.before.sp + 1) % w.capacity) := by
    rw [Plan.drop, hx.width, ← Width.wrap_natCast]
    rfl
  have hsp := hx.valueAt_after .stackPointer
  have hops : x.instruction.instruction.operation ∈ [.pop, .ret] :=
    (pop_mnemonic_iff _ hx.mem).1 (of_decide_eq_true h)
  rcases List.mem_pair.1 hops with hop | hop
  all_goals
    have hram (a : Nat) : x.after.valueAt (.ram a) = x.before.valueAt (.ram a) :=
      hx.ram_kept hs (by rw [hop]; decide) fun hpush => absurd hpush (by rw [hop]; decide)
    simp only [Plan.ofOperation, hop] at hplan
    obtain ⟨word, hword, hplan⟩ := bind_ok_iff.1 hplan
    obtain ⟨hlt, rfl⟩ := Plan.top_ok_iff.1 hword
  · obtain ⟨rd, hrd, hplan⟩ := bind_ok_iff.1 hplan
    obtain ⟨hrd, hsize⟩ := Plan.registerIndex_ok_iff.1 hrd
    rw [hdrop] at hplan
    cases hplan
    have hnot : x.mnemonic ≠ "RET" := fun hret => by
      have hret := form_of_control _ hx.mem (.ret, []) (by rw [← mnemonic, hret]; rfl)
      cases hop.symm.trans hret.1
    refine ⟨hsp, ?_, hram⟩
    rw [Takes, if_neg hnot]
    obtain ⟨ip, cycles, -, hafter⟩ := hx.result
    have hput : x.after.registers =
        x.before.registers.put rd (Plan.ramWord x.before x.before.sp) := by
      rw [hafter]
      rfl
    have hword : Plan.ramWord x.before x.before.sp < w.capacity := hs.memory.ram.getD_lt _
    refine ⟨rd, hrd, ?_⟩
    rw [hput, Cells.raw?_put, if_pos rfl, Array.getElem?_eq_getElem hsize, Option.map_some,
      hs.registers.width,
      Width.truncate_of_lt hword]
    rfl
  · rw [hdrop] at hplan
    cases hplan
    have hret : x.mnemonic = "RET" := ret_of_operation _ hx.mem hop
    refine ⟨hsp, ?_, hram⟩
    rw [Takes, if_pos hret]
    exact hx.flow.symm

/-- Any other instruction leaves the stack pointer and RAM alone. -/
theorem resting (hs : x.before.Conforms config w instructionSet.statusBits)
    (hdisturbs : x.disturbs = false) (hopens : x.opens = false) (hcloses : x.closes = false) :
    x.after.sp = x.before.sp ∧ ∀ a, x.after.valueAt (.ram a) = x.before.valueAt (.ram a) := by
  have hpush : x.instruction.instruction.operation ∉ [.push, .call] :=
    fun h => of_decide_eq_false hopens ((push_mnemonic_iff _ hx.mem).2 h)
  have hpop : x.instruction.instruction.operation ∉ [.pop, .ret] :=
    fun h => of_decide_eq_false hcloses ((pop_mnemonic_iff _ hx.mem).2 h)
  obtain ⟨hstore, hout⟩ := Bool.or_eq_false_iff.1 hdisturbs
  have hstore : x.instruction.instruction.operation ≠ .store :=
    fun hop => of_decide_eq_false hstore (store_of_operation _ hx.mem hop)
  have hsp : ¬ x.instruction.Reaches instructionSet.flags x.before .stackPointer := by
    rintro (huses | ⟨hop, a, ha, hresolve⟩)
    · cases hop : x.instruction.instruction.operation <;> rw [hop] at huses hpush hpop
      case push | call => exact hpush (by decide)
      case pop | ret => exact hpop (by decide)
      all_goals cases huses
    · obtain rfl := AddressMap.resolve_eq_stackPointer_iff.1 hresolve
      have hmnemonic : x.mnemonic = "OUT" := output_of_operation _ hx.mem hop
      rw [hmnemonic, ha] at hout
      exact absurd hout (by decide)
  exact ⟨hx.kept hs hsp, fun a => hx.ram_kept hs hstore fun hop => absurd hop hpush⟩

end Execution.CarriesOut

/-! ### Runs -/

/-- The words of the open instructions are on the stack, from the stack pointer on, and above them is
where the stack was in the beginning. -/
structure Holds (w : Width) (base : Nat) (opened : List Execution) (s : Storage) : Prop where
  sp : (s.sp + opened.length) % w.capacity = base
  words : ∀ i (o : Execution), opened[i]? = some o →
    o.Stores w (s.valueAt (.ram ((s.sp + i) % w.capacity)))

namespace Holds

variable {base : Nat} {opened : List Execution}

theorem of_conforms {s : Storage} (hs : s.Conforms config w instructionSet.statusBits) :
    Holds w s.sp [] s where
  sp := Nat.mod_eq_of_lt hs.sp
  words _ _ h := nomatch h

theorem opening (h : Holds w base opened x.before) (hx : x.CarriesOut config w plan)
    (hs : x.before.Conforms config w instructionSet.statusBits) (hopens : x.opens = true)
    (hdepth : opened.length < w.capacity) : Holds w base (x :: opened) x.after := by
  obtain ⟨hsp, hstores, hram⟩ := hx.opening hs hopens
  have hlt := below_lt w x.before.sp
  refine ⟨?_, fun i o ho => ?_⟩
  · rw [hsp, List.length_cons, below_add_succ, h.sp]
  rw [hsp]
  cases i with
  | zero =>
    cases ho
    rwa [Nat.add_zero, Nat.mod_eq_of_lt hlt]
  | succ i =>
    -- Going up fewer places than there are addresses does not lead back to where the new word is.
    have hi : i < opened.length := (List.getElem?_eq_some_iff.1 (List.getElem?_cons_succ ▸ ho)).1
    have hne : (below w x.before.sp + (i + 1)) % w.capacity ≠ below w x.before.sp := by
      rcases Nat.lt_or_ge (below w x.before.sp + (i + 1)) w.capacity with hnear | hround
      · rw [Nat.mod_eq_of_lt hnear]
        omega
      · rw [Nat.mod_eq_sub_mod hround, Nat.mod_eq_of_lt (by omega)]
        omega
    rw [hram _ hne, below_add_succ]
    exact h.words i o ho

/-- The word that is taken is that of the last instruction that is open. -/
theorem closing {o : Execution} (h : Holds w base (o :: opened) x.before)
    (hx : x.CarriesOut config w plan) (hs : x.before.Conforms config w instructionSet.statusBits)
    (hcloses : x.closes = true) :
    (∃ word, o.Stores w word ∧ x.Takes word) ∧ Holds w base opened x.after := by
  obtain ⟨hsp, htakes, hram⟩ := hx.closing hs hcloses
  have hword := h.words 0 o rfl
  rw [Nat.add_zero, Nat.mod_eq_of_lt hs.sp] at hword
  have hup (n : Nat) : (x.after.sp + n) % w.capacity = (x.before.sp + (n + 1)) % w.capacity := by
    rw [hsp, Nat.mod_add_mod, Nat.add_assoc, Nat.add_comm 1 n]
  refine ⟨⟨_, hword, htakes⟩, ?_, fun i o ho => ?_⟩
  · rw [hup]
    exact h.sp
  · rw [hup, hram]
    exact h.words (i + 1) o ho

theorem resting (h : Holds w base opened x.before) (hx : x.CarriesOut config w plan)
    (hs : x.before.Conforms config w instructionSet.statusBits) (hdisturbs : x.disturbs = false)
    (hopens : x.opens = false) (hcloses : x.closes = false) : Holds w base opened x.after := by
  obtain ⟨hsp, hram⟩ := hx.resting hs hdisturbs hopens hcloses
  refine ⟨hsp ▸ h.sp, fun i o ho => ?_⟩
  rw [hsp, hram]
  exact h.words i o ho

end Holds

/-- Every closing instruction of a run takes the word of its partner, and the stack pointer comes back
to where it was in the beginning. -/
theorem Trace.returns {s s' : Storage} {xs opened : List Execution}
    {pairs : List (Execution × Execution)} {base : Nat} (htrace : Trace w s xs s')
    (hs : s.Conforms config w instructionSet.statusBits) (hholds : Holds w base opened s)
    (h : matching w.capacity opened xs = some pairs) :
    (∀ o x, (o, x) ∈ pairs → ∃ word, o.Stores w word ∧ x.Takes word) ∧ s'.sp = base := by
  induction htrace generalizing opened pairs with
  | nil s =>
    rw [matching] at h
    split at h
    next hempty =>
      cases h
      rw [List.isEmpty_iff.1 hempty] at hholds
      refine ⟨fun _ _ hmem => (List.not_mem_nil hmem).elim, ?_⟩
      exact (Nat.mod_eq_of_lt hs.sp).symm.trans hholds.sp
    next => cases h
  | cons x hx rest ih =>
    obtain ⟨plan, hplan⟩ := hx.exists_carriesOut hs
    have hafter := hplan.conforms hs
    simp only [matching] at h
    split at h
    · cases h
    next hdisturbs =>
    split at h
    next hopens =>
      split at h
      next hdepth => exact ih hafter (hholds.opening hplan hs hopens hdepth) h
      next => cases h
    next hopens =>
    split at h
    next hcloses =>
      split at h
      · cases h
      next o opened =>
        obtain ⟨pairs, hpairs, rfl⟩ := Option.map_eq_some_iff.1 h
        obtain ⟨htakes, hholds⟩ := hholds.closing hplan hs hcloses
        obtain ⟨hrest, hsp⟩ := ih hafter hholds hpairs
        refine ⟨fun o x hmem => ?_, hsp⟩
        rcases List.mem_cons.1 hmem with heq | hmem
        · cases heq
          exact htakes
        · exact hrest o x hmem
    next hcloses =>
      exact ih hafter (hholds.resting hplan hs (eq_false_of_ne_true hdisturbs)
        (eq_false_of_ne_true hopens) (eq_false_of_ne_true hcloses)) h

theorem closes_of_opens (h : x.opens = true) : x.closes = false := by
  have hopens : x.mnemonic ∈ ["PUSH", "CALL"] := of_decide_eq_true h
  rw [Execution.closes]
  rcases List.mem_pair.1 hopens with hmnemonic | hmnemonic <;> rw [hmnemonic] <;> decide

/-- All closing instructions have their partners. -/
theorem closes_of_matching {depth : Nat} {xs opened : List Execution}
    {pairs : List (Execution × Execution)} (h : matching depth opened xs = some pairs) :
    pairs.map Prod.snd = xs.filter Execution.closes := by
  induction xs generalizing opened pairs with
  | nil =>
    simp only [matching] at h
    split at h <;> cases h
    rfl
  | cons x xs ih =>
    simp only [matching] at h
    split at h
    · cases h
    split at h
    next hopens =>
      rw [List.filter_cons_of_neg (Bool.eq_false_iff.1 (closes_of_opens hopens))]
      split at h
      · exact ih h
      · cases h
    next =>
    split at h
    next hcloses =>
      split at h
      · cases h
      · obtain ⟨pairs, hpairs, rfl⟩ := Option.map_eq_some_iff.1 h
        rw [List.map_cons, List.filter_cons_of_pos hcloses, ih hpairs]
    next hcloses =>
      rw [List.filter_cons_of_neg hcloses]
      exact ih h

/-! ### Cycles of a chip -/

/-- The instructions that a chip executes, up to a number of cycles or to the first fault. -/
def executions (c : Chip) : Nat → List Execution
  | 0 => []
  | n + 1 =>
    match c.fetch c.storage.ip, c.cycle with
    | .ok d, (.ok flow, c') => ⟨c.storage, d, flow, c'.storage⟩ :: executions c' n
    | _, _ => []

theorem runs_cycle {c c' : Chip} {d : Decoded} {flow : Flow} (hc : c.Conforms instructionSet c.config)
    (hfetch : c.fetch c.storage.ip = .ok d) (hcycle : c.cycle = (.ok flow, c')) :
    Execution.Runs ⟨c.storage, d, flow, c'.storage⟩ c.width := by
  have hnext := hc.cycle
  rw [hcycle] at hnext
  obtain ⟨row, hrow, -, rfl⟩ := Chip.fetch_ok_iff.1 hfetch
  obtain ⟨cell, -, hget⟩ := (rowAt?_eq_some_iff hc.instructions).1 hrow
  refine ⟨List.mem_of_getElem? hget, hc.decodedAs_fits row, ?_⟩
  rw [Chip.cycle, hfetch, hc.instructions] at hcycle
  cases hexecute : c.storage.execute instructionSet.flags
      ⟨row, c.operandsAt c.storage.ip row, c.width⟩ with
  | mk result s =>
  simp only [hexecute] at hcycle
  cases result with
  | error fault => cases hcycle
  | ok flow =>
    cases hcycle
    exact ⟨s, _, _, rfl, hnext.storage.ip, rfl⟩

/-- Cycles are executions of what was fetched, one after the other. -/
theorem trace_executions {c : Chip} (hc : c.Conforms instructionSet c.config) (n : Nat) :
    Trace c.width c.storage (executions c n) (c.afterCycles (executions c n).length).storage := by
  induction n generalizing c with
  | zero => exact .nil c.storage
  | succ n ih =>
    rw [executions]
    split
    next d flow c' hfetch hcycle =>
      have hnext := hc.cycle
      have hwidth : c.cycle.2.width = c.width := Option.some.inj (hnext.width.symm.trans hc.width)
      have hrest := ih (hnext.configuration.symm ▸ hnext)
      rw [hwidth, hcycle] at hrest
      rw [List.length_cons, Chip.afterCycles, hcycle]
      exact .cons _ (runs_cycle hc hfetch hcycle) hrest
    next => exact .nil c.storage

/-! ### The discipline -/

/-- In a run where all brackets are closed, nothing else touches the stack, and no more brackets are
open at a time than there are addresses, each `POP` and each `RET` takes the word that its partner has
put on the stack, and in the end the stack pointer is back. -/
theorem stack_discipline {s s' : Storage} {xs : List Execution} {pairs : List (Execution × Execution)}
    (hs : s.Conforms config w instructionSet.statusBits) (htrace : Trace w s xs s')
    (hmatching : matching (2 ^ w.bits) [] xs = some pairs) :
    pairs.map Prod.snd = xs.filter Execution.closes ∧
      (∀ o x, (o, x) ∈ pairs → ∃ word, o.Stores w word ∧ x.Takes word) ∧ s'.sp = s.sp :=
  ⟨closes_of_matching hmatching, htrace.returns hs (Holds.of_conforms hs) hmatching⟩

/-- A push, a call, a return and a pop on a chip whose stack starts at the end of the address space. -/
theorem stack_discipline_wrapped :
    let config : Config := { Config.m1047 with registers := 2, ram := 256, rom := 7, mapped := 0 }
    let c := (Chip.blank instructionSet config .w8 .halt).perform
      (.loadProgram 0 [0x1E, 0, 0x2C, 6, 0x1F, 1, 0x2D])
    ∃ pairs, matching (2 ^ Width.w8.bits) [] (executions c 4) = some pairs ∧ pairs.length = 2 ∧
      (∀ o x, (o, x) ∈ pairs → ∃ word, o.Stores .w8 word ∧ x.Takes word) ∧
      (c.afterCycles 2).storage.sp = 254 ∧ (c.afterCycles 4).storage.sp = 0 := by
  intro config c
  have hc : Chip.Reachable instructionSet c := .perform _ (.new (show Chip.new instructionSet config
    .halt = .ok (Chip.blank instructionSet config .w8 .halt) from rfl))
  have hsome : ((matching (2 ^ Width.w8.bits) [] (executions c 4)).map List.length) = some 2 := by
    decide +kernel
  obtain ⟨pairs, hpairs, hlength⟩ := Option.map_eq_some_iff.1 hsome
  have hexecuted : (executions c 4).length = 4 := by decide +kernel
  have hlow : (c.afterCycles 2).storage.sp = 254 := by decide +kernel
  obtain ⟨-, htakes, hsp⟩ :=
    stack_discipline hc.conforms.storage (trace_executions hc.conforms 4) hpairs
  rw [hexecuted] at hsp
  exact ⟨pairs, hpairs, hlength, htakes, hlow, hsp⟩

end Microcontroller.M1047
