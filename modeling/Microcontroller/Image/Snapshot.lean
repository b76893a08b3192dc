import Microcontroller.Chip.Fault
import Microcontroller.Chip.Lifecycle
import Microcontroller.Config
import Microcontroller.Image.Format
/-!
# Snapshots and their images

A snapshot is a plain record of everything a chip holds. Nothing ties its parts together: whether
they fit the configuration is seen when a chip is restored from it. Its image is a header of a
signature and a version, and then its fields in order. What follows an image is ignored.
-/

namespace Microcontroller

structure Snapshot where
  config : Config
  lifecycle : Lifecycle
  registers : List Nat
  status : List Byte
  ram : List Nat
  rom : Option (List Nat)
  digital : List Byte
  analog : List Nat
  mapped : List Nat
  sp : Nat
  ip : Nat
  cycles : Nat
  fault : Option Fault
  deriving DecidableEq

/-- Why a snapshot could not be taken from its image or turned into a chip. -/
inductive SnapshotError where
  | tooSmall
  | invalidMagic
  | unsupportedVersion (version : Nat)
  | malformed (cause : ReadError)
  | mismatch (fault : Fault)
  /-- A cause from outside. -/
  | other (text : String)
  deriving DecidableEq

def SnapshotError.message : SnapshotError → String
  | tooSmall => "Image too small"
  | invalidMagic => "Invalid magic number"
  | unsupportedVersion version => "Unsupported version: " ++ Numeral.decimal version
  | malformed cause => cause.message
  | mismatch fault => "snapshot does not match its configuration: " ++ fault.message
  | other text => text

namespace Format

/-- A word of any width takes four bytes. -/
def word : Format Nat := number 4

def words : Format (List Nat) := list word

def bytes : Format (List Byte) := list byte

def config : Format Config :=
  (pair (number 1) <| pair word <| pair word <| pair word <| pair word <| pair word <|
    pair word word).map
    (fun (bits, registers, ram, rom, digital, analog, mapped, speed) =>
      { bits, registers, ram, rom, digital, analog, mapped, speed })
    fun c => (c.bits, c.registers, c.ram, c.rom, c.digital, c.analog, c.mapped, c.speed)

def lifecycle : Format Lifecycle := choice Lifecycle.all Lifecycle.ordinal

def region : Format Region := choice Region.all Region.ordinal

def fault : Format Fault :=
  (either (pair word word) (pair word <| pair region <| pair (number 8) (number 8))).map
    (fun
      | .inl (ip, opcode) => .illegalInstruction ip opcode
      | .inr (ip, region, index, len) => .bounds ip region index len)
    fun
      | .illegalInstruction ip opcode => .inl (ip, opcode)
      | .bounds ip region index len => .inr (ip, region, index, len)

def snapshot : Format Snapshot :=
  (pair config <| pair lifecycle <| pair words <| pair bytes <| pair words <|
    pair (option words) <| pair bytes <| pair words <| pair words <| pair word <| pair word <|
    pair (number 8) (option fault)).map
    (fun (config, lifecycle, registers, status, ram, rom, digital, analog, mapped, sp, ip, cycles,
        fault) =>
      { config, lifecycle, registers, status, ram, rom, digital, analog, mapped, sp, ip, cycles,
        fault })
    fun s => (s.config, s.lifecycle, s.registers, s.status, s.ram, s.rom, s.digital, s.analog,
      s.mapped, s.sp, s.ip, s.cycles, s.fault)

end Format

namespace Snapshot

/-- The bytes every image starts with. -/
def magic : List Byte := [0x4D, 0x43, 0x55, 0x53]

def version : Nat := 1

/-- Bytes of the signature and the version. -/
def headerSize : Nat := 8

def toBytes (s : Snapshot) : List Byte :=
  magic ++ Format.word.write version ++ Format.snapshot.write s

def ofBytes (image : List Byte) : Except SnapshotError Snapshot :=
  if image.length < headerSize then .error .tooSmall
  else if image.take magic.length ≠ magic then .error .invalidMagic
  else
    match Format.word.read (image.drop magic.length) with
    | .error e => .error (.malformed e)
    | .ok (found, payload) =>
      if found ≠ version then .error (.unsupportedVersion found)
      else
        match Format.snapshot.read payload with
        | .ok (s, _) => .ok s
        | .error e => .error (.malformed e)

end Snapshot

end Microcontroller
