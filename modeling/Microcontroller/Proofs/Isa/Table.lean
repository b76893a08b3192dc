import Mathlib.Data.List.Forall2
import Microcontroller.Proofs.Isa.Decode
import Microcontroller.Proofs.LetterCase
/-!
# Making a table

A table is made by adding rows one at a time. A row is added where it is apart from every row that is
there, in its opcode and in its mnemonic; else it clashes with one of them, and the error says how. So
what comes of a list of rows is decided by its first row that clashes with one before it: without such
a row the table has the rows as they are listed, and it finds each by its opcode and by its mnemonic
in letters of either case.
-/

namespace Microcontroller

/-- Rows that can stand in one table. -/
def Instruction.Apart (i j : Instruction) : Prop :=
  i.opcode ≠ j.opcode ∧ ¬ SameText i.mnemonic j.mnemonic

namespace InstructionTable

/-- What is wrong with a row that comes after others: one of them has its opcode, or else one of them
has its mnemonic. -/
inductive Clash (before : List Instruction) (row : Instruction) : Error → Prop where
  | opcode {first : Instruction} (hfirst : first ∈ before) (hopcode : first.opcode = row.opcode) :
      Clash before row (.duplicateOpcode row.opcode first.mnemonic row.mnemonic)
  | mnemonic {first : Instruction} (hopcodes : ∀ r ∈ before, r.opcode ≠ row.opcode)
      (hfirst : first ∈ before) (hmnemonic : SameText first.mnemonic row.mnemonic) :
      Clash before row (.duplicateMnemonic row.mnemonic)

theorem Clash.not_apart {before : List Instruction} {row : Instruction} {e : Error}
    (h : Clash before row e) : ¬ ∀ r ∈ before, r.Apart row := by
  intro hapart
  cases h with
  | opcode hfirst hopcode => exact (hapart _ hfirst).1 hopcode
  | mnemonic _ hfirst hsame => exact (hapart _ hfirst).2 hsame

variable {t t' : InstructionTable} {row : Instruction} {rows : List Instruction} {e : Error}

theorem ext_rows (h : t.rows = t'.rows) : t = t' := by
  cases t
  cases t'
  cases h
  rfl

theorem pairwise_apart (t : InstructionTable) : t.rows.Pairwise Instruction.Apart := by
  have hopcodes := List.pairwise_map.1 t.opcodes
  have hmnemonics := List.pairwise_map.1 t.mnemonics
  refine (hopcodes.and hmnemonics).imp fun ⟨hopcode, hkey⟩ => ⟨hopcode, fun hsame => ?_⟩
  exact hkey (key_eq_iff.2 hsame)

/-! ### One more row -/

theorem mem_keys_iff {mnemonic : String} :
    Instruction.key mnemonic ∈ rows.map (Instruction.key ·.mnemonic) ↔
      ∃ r ∈ rows, SameText r.mnemonic mnemonic := by
  simp only [List.mem_map, key_eq_iff]

theorem push_ok_iff :
    t.push row = .ok t' ↔ (∀ r ∈ t.rows, r.Apart row) ∧ t'.rows = t.rows ++ [row] := by
  unfold push
  split
  next first hfirst =>
    have hopcode : first.opcode = row.opcode := beq_iff_eq.1 (List.find?_some hfirst :)
    refine iff_of_false nofun fun ⟨hapart, _⟩ => ?_
    exact (hapart first (List.mem_of_find?_eq_some hfirst)).1 hopcode
  next hnone =>
    have hopcodes : ∀ r ∈ t.rows, r.opcode ≠ row.opcode := by
      simpa using List.find?_eq_none.1 hnone
    split
    next hkey =>
      obtain ⟨r, hr, hsame⟩ := mem_keys_iff.1 hkey
      exact iff_of_false nofun fun ⟨hapart, _⟩ => (hapart r hr).2 hsame
    next hkey =>
      have hapart : ∀ r ∈ t.rows, r.Apart row := fun r hr =>
        ⟨hopcodes r hr, fun hsame => hkey (mem_keys_iff.2 ⟨r, hr, hsame⟩)⟩
      rw [and_iff_right hapart, Except.ok.injEq]
      exact ⟨fun h => h ▸ rfl, fun h => ext_rows h.symm⟩

theorem push_error_iff : t.push row = .error e ↔ Clash t.rows row e := by
  unfold push
  split
  next first hfirst =>
    obtain ⟨hmem, hopcode⟩ := (find?_key_iff t.opcodes).1 hfirst
    constructor
    · intro h
      cases h
      exact .opcode hmem hopcode
    · intro h
      cases h with
      | opcode hfirst' hopcode' =>
        have hfind := (find?_key_iff t.opcodes).2 ⟨hfirst', hopcode'⟩
        rw [hfirst] at hfind
        cases hfind
        rfl
      | mnemonic hopcodes => exact absurd hopcode (hopcodes first hmem)
  next hnone =>
    have hopcodes : ∀ r ∈ t.rows, r.opcode ≠ row.opcode := by
      simpa using List.find?_eq_none.1 hnone
    split
    next hkey =>
      constructor
      · intro h
        cases h
        obtain ⟨r, hr, hsame⟩ := mem_keys_iff.1 hkey
        exact .mnemonic hopcodes hr hsame
      · intro h
        cases h with
        | opcode hfirst hopcode => exact absurd hopcode (hopcodes _ hfirst)
        | mnemonic => rfl
    next hkey =>
      refine iff_of_false nofun fun h => ?_
      cases h with
      | opcode hfirst hopcode => exact hopcodes _ hfirst hopcode
      | mnemonic _ hfirst hsame => exact hkey (mem_keys_iff.2 ⟨_, hfirst, hsame⟩)

theorem exists_push (h : ∀ r ∈ t.rows, r.Apart row) : ∃ t', t.push row = .ok t' := by
  cases hpush : t.push row with
  | ok t' => exact ⟨t', rfl⟩
  | error e => exact absurd h (push_error_iff.1 hpush).not_apart

/-! ### All rows -/

theorem apart_of_pairwise {before after : List Instruction}
    (h : (before ++ row :: after).Pairwise Instruction.Apart) : ∀ r ∈ before, r.Apart row :=
  fun r hr => (List.pairwise_append.1 h).2.2 r hr row List.mem_cons_self

/-- Adding rows to a table succeeds if they are apart from one another and from the rows in it. -/
theorem foldlM_push_ok_iff : rows.foldlM push t = .ok t' ↔
    (t.rows ++ rows).Pairwise Instruction.Apart ∧ t'.rows = t.rows ++ rows := by
  induction rows generalizing t with
  | nil =>
    rw [List.foldlM_nil, pure_ok_iff, List.append_nil, and_iff_right t.pairwise_apart]
    exact ⟨fun h => h ▸ rfl, fun h => ext_rows h.symm⟩
  | cons row rows ih =>
    rw [List.foldlM_cons, bind_ok_iff]
    constructor
    · rintro ⟨t₁, hpush, hrest⟩
      obtain ⟨-, hrows⟩ := push_ok_iff.1 hpush
      rwa [ih, hrows, ← List.append_cons] at hrest
    · rintro ⟨hapart, hrows⟩
      obtain ⟨t₁, hpush⟩ := exists_push (apart_of_pairwise hapart)
      refine ⟨t₁, hpush, ?_⟩
      rw [ih, (push_ok_iff.1 hpush).2, ← List.append_cons]
      exact ⟨hapart, hrows⟩

/-- Adding rows to a table fails at the first of them that clashes with a row before it. -/
theorem foldlM_push_error_iff : rows.foldlM push t = .error e ↔
    ∃ before row after, rows = before ++ row :: after ∧
      (t.rows ++ before).Pairwise Instruction.Apart ∧ Clash (t.rows ++ before) row e := by
  induction rows generalizing t with
  | nil =>
    refine iff_of_false nofun ?_
    rintro ⟨before, row, after, hrows, -⟩
    cases before <;> cases hrows
  | cons row rows ih =>
    rw [List.foldlM_cons, bind_error_iff, push_error_iff]
    constructor
    · rintro (hclash | ⟨t₁, hpush, hrest⟩)
      · refine ⟨[], row, rows, rfl, ?_⟩
        rw [List.append_nil]
        exact ⟨t.pairwise_apart, hclash⟩
      · obtain ⟨before, row', after, rfl, hbefore⟩ := ih.1 hrest
        rw [(push_ok_iff.1 hpush).2, ← List.append_cons] at hbefore
        exact ⟨row :: before, row', after, rfl, hbefore⟩
    · rintro ⟨_ | ⟨_, before⟩, row', after, hrows, hapart, hclash⟩
      · cases hrows
        rw [List.append_nil] at hclash
        exact .inl hclash
      · cases hrows
        obtain ⟨t₁, hpush⟩ := exists_push (apart_of_pairwise hapart)
        refine .inr ⟨t₁, hpush, ih.2 ⟨before, row', after, rfl, ?_⟩⟩
        rw [(push_ok_iff.1 hpush).2, ← List.append_cons]
        exact ⟨hapart, hclash⟩

theorem ofRows_ok_iff :
    ofRows rows = .ok t ↔ rows.Pairwise Instruction.Apart ∧ t.rows = rows := foldlM_push_ok_iff

theorem ofRows_error_iff : ofRows rows = .error e ↔
    ∃ before row after, rows = before ++ row :: after ∧
      before.Pairwise Instruction.Apart ∧ Clash before row e := foldlM_push_error_iff

theorem exists_ofRows_iff : (∃ t, ofRows rows = .ok t) ↔ rows.Pairwise Instruction.Apart := by
  constructor
  · rintro ⟨t, ht⟩
    exact (ofRows_ok_iff.1 ht).1
  · intro hapart
    cases hrows : ofRows rows with
    | ok t => exact ⟨t, rfl⟩
    | error e =>
      obtain ⟨before, row, after, rfl, -, hclash⟩ := ofRows_error_iff.1 hrows
      exact absurd (apart_of_pairwise hapart) hclash.not_apart

/-! ### Finding a row -/

theorem decode?_eq_none_iff {opcode : Byte} :
    t.decode? opcode = none ↔ ∀ r ∈ t.rows, r.opcode ≠ opcode := by
  simp only [decode?, List.find?_eq_none, beq_iff_eq, ne_eq]

theorem lookup_error_iff {mnemonic : String} : t.lookup mnemonic = .error e ↔
    e = .unknownMnemonic mnemonic ∧ ∀ r ∈ t.rows, ¬ SameText r.mnemonic mnemonic := by
  rw [lookup]
  split
  next row hrow =>
    have hsame := key_eq_iff.1 (beq_iff_eq.1 (List.find?_some hrow :))
    constructor
    · intro hok
      cases hok
    · rintro ⟨-, hnone⟩
      exact absurd hsame (hnone row (List.mem_of_find?_eq_some hrow))
  next hnone =>
    have hsame : ∀ r ∈ t.rows, ¬ SameText r.mnemonic mnemonic := by
      simpa only [List.find?_eq_none, beq_iff_eq, key_eq_iff] using hnone
    rw [and_iff_left hsame, Except.error.injEq, eq_comm]

/-- Rows make a table if and only if no two share an opcode or, up to the case of letters, a mnemonic.
The table has the rows in their order, and finds each by its opcode and its mnemonic and nothing else.
Otherwise the error is about the first row that clashes with one before it. -/
theorem ofRows_exact (rows : List Instruction) :
    ((∃ t, ofRows rows = .ok t) ↔ rows.Pairwise Instruction.Apart) ∧
    (∀ t, ofRows rows = .ok t → t.rows = rows ∧
      (∀ opcode row, t.decode? opcode = some row ↔ row ∈ rows ∧ row.opcode = opcode) ∧
      (∀ opcode, t.decode? opcode = none ↔ ∀ row ∈ rows, row.opcode ≠ opcode) ∧
      (∀ mnemonic row, t.lookup mnemonic = .ok row ↔
        row ∈ rows ∧ SameText row.mnemonic mnemonic) ∧
      ∀ mnemonic e, t.lookup mnemonic = .error e ↔
        e = .unknownMnemonic mnemonic ∧ ∀ row ∈ rows, ¬ SameText row.mnemonic mnemonic) ∧
    ∀ e, ofRows rows = .error e ↔ ∃ before row after, rows = before ++ row :: after ∧
      before.Pairwise Instruction.Apart ∧ Clash before row e := by
  refine ⟨exists_ofRows_iff, fun t ht => ?_, fun e => ofRows_error_iff⟩
  obtain rfl : t.rows = rows := (ofRows_ok_iff.1 ht).2
  refine ⟨rfl, fun opcode row => decode?_eq_some_iff, fun opcode => decode?_eq_none_iff,
    fun mnemonic row => ?_, fun mnemonic e => lookup_error_iff⟩
  rw [lookup_ok_iff, key_eq_iff]

/-- A row whose opcode and whose mnemonic are both taken is refused for its opcode. -/
theorem ofRows_exact_third :
    let nop : Instruction := ⟨"NOP", 0, .nop, [], [], none, "No operation"⟩
    let stop : Instruction := ⟨"STOP", 1, .stop, [], [], none, "Stop the chip"⟩
    let again : Instruction := ⟨"nop", 1, .nop, [], [], none, "No operation"⟩
    (∃ t, ofRows [nop, stop] = .ok t ∧ t.lookup "Stop" = .ok stop ∧
      t.lookup "halt" = .error (.unknownMnemonic "halt")) ∧
    ofRows [nop, stop, again] = .error (.duplicateOpcode 1 "STOP" "nop") := by
  intro nop stop again
  have hapart : [nop, stop].Pairwise Instruction.Apart :=
    .cons (List.forall_mem_singleton.2 ⟨by decide, by decide +kernel⟩) (List.pairwise_singleton _ _)
  obtain ⟨hmade, hfinds, -⟩ := ofRows_exact [nop, stop]
  obtain ⟨t, ht⟩ := hmade.2 hapart
  obtain ⟨-, -, -, hlookup, hunknown⟩ := hfinds t ht
  refine ⟨⟨t, ht, (hlookup _ _).2 ⟨.tail _ (.head _), by decide +kernel⟩, ?_⟩, ?_⟩
  · exact (hunknown _ _).2 ⟨rfl, by decide +kernel⟩
  · exact ((ofRows_exact [nop, stop, again]).2.2 _).2
      ⟨[nop, stop], again, [], rfl, hapart, .opcode (.tail _ (.head _)) rfl⟩

end InstructionTable

end Microcontroller
