import Microcontroller.Image.Snapshot
import Microcontroller.Proofs.Image.Format
/-!
# Images of snapshots

The format of a snapshot is put together from exact parts, so it is exact. A snapshot whose numbers
are machine integers of the sizes that the format gives them is therefore what is read from its image,
whatever its parts are and whether or not they suit one another. What is read from some bytes is a
snapshot whose image stands at their front, so a snapshot has one image, and no part of an image is
one.
-/

namespace Microcontroller

/-! ### Formats of the parts -/

namespace Format

theorem word_exact : word.Exact := number_exact 4

theorem words_exact : words.Exact := word_exact.list

theorem bytes_exact : bytes.Exact := byte_exact.list

theorem config_exact : config.Exact :=
  ((number_exact 1).pair <| word_exact.pair <| word_exact.pair <| word_exact.pair <|
    word_exact.pair <| word_exact.pair <| word_exact.pair word_exact).map (fun _ => rfl) fun _ => rfl

theorem lifecycle_exact : lifecycle.Exact := by
  refine choice_exact (by decide) fun i life h => ?_
  obtain ⟨hi, rfl⟩ := List.getElem?_eq_some_iff.1 h
  have all : ∀ i : Fin Lifecycle.all.length, (Lifecycle.all.get i).ordinal = i := by decide
  exact all ⟨i, hi⟩

theorem region_exact : region.Exact := by
  refine choice_exact (by decide) fun i region h => ?_
  obtain ⟨hi, rfl⟩ := List.getElem?_eq_some_iff.1 h
  have all : ∀ i : Fin Region.all.length, (Region.all.get i).ordinal = i := by decide
  exact all ⟨i, hi⟩

theorem fault_exact : fault.Exact := by
  refine ((word_exact.pair word_exact).either <| word_exact.pair <| region_exact.pair <|
    (number_exact 8).pair (number_exact 8)).map (fun f => ?_) fun x => ?_
  · cases f <;> rfl
  · cases x <;> rfl

theorem snapshot_exact : snapshot.Exact :=
  (config_exact.pair <| lifecycle_exact.pair <| words_exact.pair <| bytes_exact.pair <|
    words_exact.pair <| words_exact.option.pair <| bytes_exact.pair <| words_exact.pair <|
    words_exact.pair <| word_exact.pair <| word_exact.pair <|
    (number_exact 8).pair fault_exact.option).map (fun _ => rfl) fun _ => rfl

end Format

/-! ### Snapshots of machine integers -/

/-- The width in bits is a byte, and all other numbers of the configuration take four bytes. -/
structure Config.Bounded (c : Config) : Prop where
  bits : c.bits < 2 ^ 8
  registers : c.registers < 2 ^ 32
  ram : c.ram < 2 ^ 32
  rom : c.rom < 2 ^ 32
  digital : c.digital < 2 ^ 32
  analog : c.analog < 2 ^ 32
  mapped : c.mapped < 2 ^ 32
  speed : c.speed < 2 ^ 32

/-- Addresses and cells take four bytes, indexes and lengths eight. -/
def Fault.Bounded : Fault → Prop
  | .illegalInstruction ip opcode => ip < 2 ^ 32 ∧ opcode < 2 ^ 32
  | .bounds ip _ index len => ip < 2 ^ 32 ∧ index < 2 ^ 64 ∧ len < 2 ^ 64

namespace Snapshot

/-- Cells of four bytes, and no more of them than a number of eight bytes can count. -/
def BoundedCells (cells : List Nat) : Prop := cells.length < 2 ^ 64 ∧ ∀ r ∈ cells, r < 2 ^ 32

/-- A snapshot of machine integers. -/
structure Bounded (s : Snapshot) : Prop where
  config : s.config.Bounded
  registers : BoundedCells s.registers
  status : s.status.length < 2 ^ 64
  ram : BoundedCells s.ram
  rom : ∀ cells ∈ s.rom, BoundedCells cells
  digital : s.digital.length < 2 ^ 64
  analog : BoundedCells s.analog
  mapped : BoundedCells s.mapped
  sp : s.sp < 2 ^ 32
  ip : s.ip < 2 ^ 32
  cycles : s.cycles < 2 ^ 64
  fault : ∀ fault ∈ s.fault, fault.Bounded

end Snapshot

namespace Format

theorem config_fits_iff {c : Config} : config.fits c ↔ c.Bounded := by
  constructor
  · intro ⟨hbits, hregisters, hram, hrom, hdigital, hanalog, hmapped, hspeed⟩
    exact ⟨hbits, hregisters, hram, hrom, hdigital, hanalog, hmapped, hspeed⟩
  · intro ⟨hbits, hregisters, hram, hrom, hdigital, hanalog, hmapped, hspeed⟩
    exact ⟨hbits, hregisters, hram, hrom, hdigital, hanalog, hmapped, hspeed⟩

theorem lifecycle_fits (life : Lifecycle) : lifecycle.fits life := by
  cases life <;> rfl

theorem region_fits (r : Region) : region.fits r := by
  cases r <;> rfl

theorem fault_fits_iff {f : Fault} : fault.fits f ↔ f.Bounded := by
  cases f with
  | illegalInstruction ip opcode => exact Iff.rfl
  | bounds ip r index len =>
    constructor
    · intro ⟨hip, _, hindex, hlen⟩
      exact ⟨hip, hindex, hlen⟩
    · intro ⟨hip, hindex, hlen⟩
      exact ⟨hip, region_fits r, hindex, hlen⟩

theorem bytes_fits_iff {bs : List Byte} : bytes.fits bs ↔ bs.length < 2 ^ 64 :=
  and_iff_left fun _ _ => trivial

theorem option_fits_iff {α : Type} {format : Format α} {x : Option α} :
    format.option.fits x ↔ ∀ a ∈ x, format.fits a := by
  cases x with
  | none => exact iff_of_true trivial nofun
  | some a => exact ⟨fun h _ hb => Option.some.inj hb ▸ h, fun h => h a rfl⟩

/-- A snapshot has room in its format exactly if it is one of machine integers. -/
theorem snapshot_fits_iff {s : Snapshot} : snapshot.fits s ↔ s.Bounded := by
  have hfault : fault.option.fits s.fault ↔ ∀ f ∈ s.fault, f.Bounded := by
    simp only [option_fits_iff, fault_fits_iff]
  constructor
  · intro ⟨h1, _, h3, h4, h5, h6, h7, h8, h9, h10, h11, h12, h13⟩
    exact ⟨config_fits_iff.1 h1, h3, bytes_fits_iff.1 h4, h5, option_fits_iff.1 h6,
      bytes_fits_iff.1 h7, h8, h9, h10, h11, h12, hfault.1 h13⟩
  · intro ⟨h1, h3, h4, h5, h6, h7, h8, h9, h10, h11, h12, h13⟩
    exact ⟨config_fits_iff.2 h1, lifecycle_fits _, h3, bytes_fits_iff.2 h4, h5,
      option_fits_iff.2 h6, bytes_fits_iff.2 h7, h8, h9, h10, h11, h12, hfault.2 h13⟩

end Format

/-! ### Images -/

namespace Snapshot

variable {s : Snapshot} {image : List Byte}

theorem toBytes_eq (s : Snapshot) :
    s.toBytes = magic ++ (Format.word.write version ++ Format.snapshot.write s) :=
  List.append_assoc ..

theorem headerSize_le_length_toBytes (s : Snapshot) : headerSize ≤ s.toBytes.length := by
  have hheader : (magic ++ Format.word.write version).length = headerSize := rfl
  rw [toBytes, List.length_append, hheader]
  exact Nat.le_add_right _ _

/-- An image is read as a snapshot exactly if that is one of machine integers and its own image
stands in front. -/
theorem ofBytes_ok_iff : ofBytes image = .ok s ↔ s.Bounded ∧ s.toBytes <+: image := by
  constructor
  · intro h
    rw [ofBytes] at h
    split at h
    · cases h
    split at h
    · cases h
    next hmagic =>
    split at h
    · cases h
    next found payload hversion =>
    split at h
    · cases h
    next hfound =>
    split at h <;> cases h
    next rest hpayload =>
    obtain ⟨-, hversion⟩ := Format.word_exact.read_iff.1 hversion
    obtain ⟨hs, hpayload⟩ := Format.snapshot_exact.read_iff.1 hpayload
    rw [Decidable.not_not.1 hfound] at hversion
    refine ⟨Format.snapshot_fits_iff.1 hs, rest, ?_⟩
    calc s.toBytes ++ rest
        = magic ++ (Format.word.write version ++ (Format.snapshot.write s ++ rest)) := by
          rw [toBytes_eq, List.append_assoc, List.append_assoc]
      _ = image.take magic.length ++ image.drop magic.length := by
          rw [hpayload, hversion, Decidable.not_not.1 hmagic]
      _ = image := List.take_append_drop _ _
  · intro ⟨hs, rest, himage⟩
    have hsize : ¬ image.length < headerSize := by
      have hle := headerSize_le_length_toBytes s
      rw [← himage, List.length_append]
      omega
    rw [toBytes_eq, List.append_assoc, List.append_assoc] at himage
    have hmagic : image.take magic.length = magic := by rw [← himage, List.take_left]
    have hversion : Format.word.read (image.drop magic.length) =
        .ok (version, Format.snapshot.write s ++ rest) := by
      rw [← himage, List.drop_left]
      exact Format.word_exact.read_write (by decide : 1 < 256 ^ 4) _
    have hpayload := Format.snapshot_exact.read_write (Format.snapshot_fits_iff.2 hs) rest
    simp only [ofBytes, if_neg hsize, hmagic, ne_eq, not_true_eq_false, if_false, hversion, hpayload]

/-- A part of the image of a snapshot is read only if it is the whole image. -/
theorem toBytes_eq_of_start {t : Snapshot} (hs : s.Bounded) (hstart : image <+: s.toBytes)
    (h : ofBytes image = .ok t) : image = s.toBytes := by
  obtain ⟨ht, hwhole⟩ := ofBytes_ok_iff.1 h
  have hs' : ofBytes s.toBytes = .ok s := ofBytes_ok_iff.2 ⟨hs, List.prefix_rfl⟩
  have ht' : ofBytes s.toBytes = .ok t := ofBytes_ok_iff.2 ⟨ht, hwhole.trans hstart⟩
  rw [hs', Except.ok.injEq] at ht'
  rw [ht'] at hstart ⊢
  exact hstart.eq_of_length_le hwhole.length_le

/-- Snapshots are read back from their images; what is read has its image in front; and no image is
read when it is cut short. -/
theorem images_exact :
    (∀ s : Snapshot, s.Bounded → ofBytes s.toBytes = .ok s) ∧
    (∀ image s, ofBytes image = .ok s → s.Bounded ∧ s.toBytes <+: image) ∧
    ∀ s : Snapshot, s.Bounded → ∀ image, image <+: s.toBytes → image ≠ s.toBytes →
      ∃ e, ofBytes image = .error e := by
  refine ⟨fun s hs => ofBytes_ok_iff.2 ⟨hs, List.prefix_rfl⟩, fun _ _ => ofBytes_ok_iff.1, ?_⟩
  intro s hs image hstart hne
  cases hread : ofBytes image with
  | error e => exact ⟨e, rfl⟩
  | ok t => exact absurd (toBytes_eq_of_start hs hstart hread) hne

/-- A snapshot whose parts do not suit its configuration, taken after a fault: it comes back from its
image and from its image with a byte behind it, and is lost with the last byte of its fault. -/
theorem images_exact_faulted :
    let s : Snapshot :=
      ⟨Config.m1047, .halted, [0, 0xFFFFFFFF], [0x80], [], some [0x2E], [0xF0, 0x0F], [7], [], 0xFF, 1,
        2 ^ 64 - 1, some (.bounds 1 .stack 0xFF 2)⟩
    s.Bounded ∧ ofBytes s.toBytes = .ok s ∧ s.toBytes <+: s.toBytes ++ [0] ∧
      ∃ e, ofBytes s.toBytes.dropLast = .error e := by
  intro s
  have hs : s.Bounded := {
    config := by constructor <;> decide
    registers := by constructor <;> decide
    status := by decide
    ram := by constructor <;> decide
    rom := by
      intro cells hcells
      cases hcells
      constructor <;> decide
    digital := by decide
    analog := by constructor <;> decide
    mapped := by constructor <;> decide
    sp := by decide
    ip := by decide
    cycles := by decide
    fault := by
      intro fault hfault
      cases hfault
      exact ⟨by decide, by decide, by decide⟩ }
  have htrailing : ofBytes (s.toBytes ++ [0]) = .ok s :=
    ofBytes_ok_iff.2 ⟨hs, List.prefix_append _ _⟩
  have hcut : s.toBytes.dropLast ≠ s.toBytes := by decide +kernel
  obtain ⟨hread, hstart, hshort⟩ := images_exact
  exact ⟨hs, hread s hs, (hstart _ _ htrailing).2, hshort s hs _ (List.dropLast_prefix _) hcut⟩

end Snapshot

end Microcontroller
