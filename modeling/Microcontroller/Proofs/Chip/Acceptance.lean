import Microcontroller.Proofs.Chip.Restore
/-!
# Which snapshots are accepted

A snapshot is turned down for its configuration or for the size of one of its parts, and for nothing
else. What is turned down for a size is told so by a fault that names the part, what it has and what
it should have. None of the numbers in a snapshot has a say in this.
-/

namespace Microcontroller

namespace Snapshot

variable {set : InstructionSet} {s : Snapshot}

/-- The sizes of the parts, one by one. -/
theorem matches_iff : s.Matches set ↔ s.registers.length = s.config.registers ∧
    s.status.length = set.statusBits / 8 ∧ s.ram.length = s.config.ramSize ∧
    (s.rom.isSome ↔ 0 < s.config.rom) ∧ (∀ cells ∈ s.rom, cells.length = s.config.romSize) ∧
    s.digital.length = (s.config.digital + 7) / 8 ∧ s.analog.length = s.config.analog ∧
    s.mapped.length = s.config.mapped := by
  have hbytes : BitField.unitsFor set.statusBits = set.statusBits / 8 := by
    have hdvd : 8 ∣ set.statusBits := set.flags.eight_dvd_statusBits
    rw [BitField.unitsFor]
    omega
  have hrom : s.rom.isSome = s.config.hasRom ↔ (s.rom.isSome ↔ 0 < s.config.rom) := by
    rw [Bool.eq_iff_iff, Config.hasRom, decide_eq_true_eq]
  constructor
  · intro h
    exact ⟨h.registers, hbytes ▸ h.status, h.ram, hrom.1 h.rom_isSome, h.rom, h.digital, h.analog,
      h.mapped⟩
  · rintro ⟨hregisters, hstatus, hram, hsome, hcells, hdigital, hanalog, hmapped⟩
    exact ⟨hregisters, hbytes ▸ hstatus, hram, hrom.2 hsome, hcells, hdigital, hanalog, hmapped⟩

/-- A fault that names a part of the wrong size, by the number of its cells or bytes and by the number
that there should be; ROM that should not be there, or is missing, has the number 0. -/
inductive Misfit (set : InstructionSet) (s : Snapshot) : Fault → Prop where
  | registers (h : s.registers.length ≠ s.config.registers) :
      Misfit set s (.bounds s.ip .registers s.registers.length s.config.registers)
  | status (h : s.status.length ≠ BitField.unitsFor set.statusBits) :
      Misfit set s (.bounds s.ip .status s.status.length (BitField.unitsFor set.statusBits))
  | ram (h : s.ram.length ≠ s.config.ramSize) :
      Misfit set s (.bounds s.ip .ram s.ram.length s.config.ramSize)
  | rom (h : ¬ (s.rom.isSome = s.config.hasRom ∧ ∀ cells ∈ s.rom, cells.length = s.config.romSize)) :
      Misfit set s (.bounds s.ip .rom ((s.rom.map List.length).getD 0)
        (if s.config.hasRom then s.config.romSize else 0))
  | analog (h : s.analog.length ≠ s.config.analog) :
      Misfit set s (.bounds s.ip .io s.analog.length s.config.analog)
  | mapped (h : s.mapped.length ≠ s.config.mapped) :
      Misfit set s (.bounds s.ip .io s.mapped.length s.config.mapped)
  | digital (h : s.digital.length ≠ BitField.unitsFor s.config.digital) :
      Misfit set s (.bounds s.ip .io s.digital.length (BitField.unitsFor s.config.digital))

end Snapshot

namespace Chip

/-! ### What a part that does not load says -/

section

variable {P : Fault → Prop} {w : Width} {config : Config} {ip len : Nat} {region : Region}

theorem loadExactly_fails {cells : Cells} {data : List Nat} (h : cells.Fits w len)
    (hP : data.length ≠ len → P (.bounds ip region data.length len)) :
    Fails P (loadExactly ip region cells data) := by
  have hsize : cells.size = len := h.size
  rw [loadExactly, hsize]
  split
  next hlen =>
    rw [h.load_all hlen]
    exact fails_ok _
  next hlen => exact fails_error (hP hlen)

theorem loadBytes_error {field : BitField} {bytes : List Byte} {e : Error} (h : field.Tidy len)
    (he : field.loadBytes bytes = .error e) : bytes.length ≠ BitField.unitsFor len ∧
      .outOfBounds bytes.length (BitField.unitsFor len) = e := by
  rw [BitField.loadBytes, h.units] at he
  split at he <;> cases he
  next hlen => exact ⟨hlen, rfl⟩

theorem loadBytes_fails {field : BitField} {bytes : List Byte} (h : field.Tidy len)
    (hP : bytes.length ≠ BitField.unitsFor len →
      P (.bounds ip region bytes.length (BitField.unitsFor len))) :
    Fails P (inRegion ip region (field.loadBytes bytes)) := by
  cases hload : field.loadBytes bytes with
  | ok field' => exact fails_ok _
  | error e =>
    obtain ⟨hlen, rfl⟩ := loadBytes_error h hload
    exact fails_error (hP hlen)

/-- ROM is missed or found in excess with the size that the other side has for it. -/
theorem loadRom_fails {rom : Option Cells} {data : Option (List Nat)}
    (h : ∀ cells ∈ rom, cells.Fits w len)
    (hP : ¬ (data.isSome = rom.isSome ∧ ∀ cells ∈ data, cells.length = len) →
      P (.bounds ip .rom ((data.map List.length).getD 0) (if rom.isSome then len else 0))) :
    Fails P (loadRom ip rom data) := by
  cases rom with
  | none =>
    cases data with
    | none => exact fails_ok _
    | some cells => exact fails_error (hP fun h => nomatch h.1)
  | some row =>
    have hsize : row.size = len := (h row rfl).size
    cases data with
    | none =>
      rw [← hsize] at hP
      exact fails_error (hP fun h => nomatch h.1)
    | some cells =>
      refine (loadExactly_fails (h row rfl) fun hlen => ?_).bind fun _ _ => fails_ok _
      exact hP fun h => hlen (h.2 cells rfl)

theorem loadIo_fails {banks : IoBanks} {digital : List Byte} {analog mapped : List Nat}
    (h : banks.Conforms config w)
    (hanalog : analog.length ≠ config.analog → P (.bounds ip region analog.length config.analog))
    (hmapped : mapped.length ≠ config.mapped → P (.bounds ip region mapped.length config.mapped))
    (hdigital : digital.length ≠ BitField.unitsFor config.digital →
      P (.bounds ip region digital.length (BitField.unitsFor config.digital))) :
    Fails P (inRegion ip region (banks.load digital analog mapped)) := by
  have hasize : banks.analog.size = config.analog := h.analog.size
  have hmsize : banks.mapped.size = config.mapped := h.mapped.size
  rw [IoBanks.load, hasize, hmsize]
  split
  next ha => exact fails_error (hanalog ha)
  next ha =>
  split
  next hm => exact fails_error (hmapped hm)
  next hm =>
  -- The channels have their sizes, so only the pins can still be refused.
  rw [h.analog.load_all (Decidable.not_not.1 ha), h.mapped.load_all (Decidable.not_not.1 hm)]
  cases hload : banks.digital.loadBytes digital with
  | ok field => exact fails_ok _
  | error e =>
    obtain ⟨hlen, rfl⟩ := loadBytes_error h.digital hload
    exact fails_error (hdigital hlen)

end

variable {set : InstructionSet} {s : Snapshot} {policy : FaultPolicy}

theorem loadStorage_fails {w : Width} {storage : Storage}
    (h : storage.Conforms s.config w set.statusBits) :
    Fails (s.Misfit set) (loadStorage w storage s) := by
  refine (loadExactly_fails h.registers .registers).bind fun _ _ => ?_
  refine (loadBytes_fails h.status .status).bind fun _ _ => ?_
  refine (loadExactly_fails h.memory.ram .ram).bind fun _ _ => ?_
  refine (loadRom_fails h.memory.rom ?_).bind fun _ _ => ?_
  · rw [h.memory.rom_isSome]
    exact .rom
  · exact (loadIo_fails h.io .analog .mapped .digital).bind fun _ _ => fails_ok _

/-! ### Accepting a snapshot -/

theorem new_error {config : Config} {e : ConfigError} (h : config.validate = .error e) :
    new set config policy = .error (.invalidConfiguration e) := by
  rw [new, h]
  rfl

theorem ofSnapshot_mismatch (hvalid : s.config.validate = .ok ()) (h : ¬ s.Matches set) :
    ∃ fault, ofSnapshot set s policy = .error (.snapshot (.mismatch fault)) ∧
      s.Misfit set fault := by
  obtain ⟨w, hw⟩ := (Config.validate_ok_iff.1 hvalid).width
  have hnew : new set s.config policy = .ok (blank set s.config w policy) :=
    new_ok_iff.2 ⟨hvalid, w, hw, rfl⟩
  have hblank := (blank_conforms set policy hvalid hw).storage
  rw [ofSnapshot, hnew]
  cases hload : loadStorage w (Storage.zero s.config w set.statusBits) s with
  | ok storage => exact absurd ((loadStorage_ok_iff hblank).1 hload).1 h
  | error fault =>
    refine ⟨fault, ?_, loadStorage_fails hblank fault hload⟩
    change Except.mapError _ (loadStorage w (Storage.zero s.config w set.statusBits) s) >>= _ = _
    rw [hload]
    rfl

theorem exists_ofSnapshot_iff :
    (∃ c, ofSnapshot set s policy = .ok c) ↔ s.config.validate = .ok () ∧ s.Matches set := by
  constructor
  · intro ⟨c, h⟩
    obtain ⟨hvalid, hmatches, -⟩ := ofSnapshot_ok_iff.1 h
    exact ⟨hvalid, hmatches⟩
  · intro ⟨hvalid, hmatches⟩
    obtain ⟨w, hw⟩ := (Config.validate_ok_iff.1 hvalid).width
    exact ⟨_, ofSnapshot_ok_iff.2 ⟨hvalid, hmatches, w, hw, rfl⟩⟩

/-- A snapshot is accepted exactly if its configuration is valid and each of its parts has the size
that the configuration and the instruction set give it. An invalid configuration is reported as such,
and a part of another size by a fault that names it. -/
theorem snapshots_accepted (set : InstructionSet) (s : Snapshot) (policy : FaultPolicy) :
    ((∃ c, ofSnapshot set s policy = .ok c) ↔ s.config.validate = .ok () ∧
      s.registers.length = s.config.registers ∧ s.status.length = set.statusBits / 8 ∧
      s.ram.length = s.config.ramSize ∧ (s.rom.isSome ↔ 0 < s.config.rom) ∧
      (∀ cells ∈ s.rom, cells.length = s.config.romSize) ∧
      s.digital.length = (s.config.digital + 7) / 8 ∧ s.analog.length = s.config.analog ∧
      s.mapped.length = s.config.mapped) ∧
    (∀ e, s.config.validate = .error e →
      ofSnapshot set s policy = .error (.invalidConfiguration e)) ∧
    (s.config.validate = .ok () → (¬ ∃ c, ofSnapshot set s policy = .ok c) →
      ∃ fault, ofSnapshot set s policy = .error (.snapshot (.mismatch fault)) ∧
        s.Misfit set fault) := by
  refine ⟨by rw [exists_ofSnapshot_iff, Snapshot.matches_iff], fun e he => ?_, fun hvalid h => ?_⟩
  · rw [ofSnapshot, new_error he]
    rfl
  · exact ofSnapshot_mismatch hvalid fun hmatches => h (exists_ofSnapshot_iff.2 ⟨hvalid, hmatches⟩)

/-- A snapshot of a chip without ROM, with numbers that are all too large: it is accepted as it is,
turned down with ROM of no cells, and turned down for words of twelve bits. -/
theorem snapshots_accepted_without_rom :
    let set := M1047.instructionSet
    let config : Config :=
      { Config.m1047 with registers := 1, ram := 2, rom := 0, digital := 3, analog := 1, mapped := 0 }
    let s : Snapshot := ⟨config, .booted, [0x1FF], [0xFF, 0xFF], [0x100, 0x207], none, [0xFF], [0x305],
      [], 0x1FF, 0x101, 2 ^ 64 - 1, some (.bounds 0 .stack 0xFF 2)⟩
    (∃ c, ofSnapshot set s .skip = .ok c) ∧
      (∃ fault, ofSnapshot set { s with rom := some [] } .skip = .error (.snapshot (.mismatch fault)) ∧
        Snapshot.Misfit set { s with rom := some [] } fault) ∧
      ofSnapshot set { s with config.bits := 12 } .skip =
        .error (.invalidConfiguration .unsupportedBits) := by
  intro set config s
  have hbytes : s.status.length = set.statusBits / 8 := by decide
  have hram : s.ram.length = s.config.ramSize := by decide
  have hnone : s.rom.isSome ↔ 0 < s.config.rom := by decide
  have hpins : s.digital.length = (s.config.digital + 7) / 8 := by decide
  obtain ⟨haccepted, -, -⟩ := snapshots_accepted set s .skip
  obtain ⟨hempty, -, hmismatch⟩ := snapshots_accepted set { s with rom := some [] } .skip
  obtain ⟨-, hinvalid, -⟩ := snapshots_accepted set { s with config.bits := 12 } .skip
  refine ⟨haccepted.2 ⟨rfl, rfl, hbytes, hram, hnone, nofun, hpins, rfl, rfl⟩, hmismatch rfl ?_,
    hinvalid _ rfl⟩
  intro h
  obtain ⟨-, -, -, -, hsome, -⟩ := hempty.1 h
  exact absurd (hsome.1 rfl) (by decide)

end Chip

end Microcontroller
