import Microcontroller.AddressMap
import Microcontroller.Numeral
import Microcontroller.Word.Width
/-!
# Chip configurations

The parameters that fix one chip: word width, register count, memory sizes, I/O counts and clock
speed. `Config.validate` says whether a chip can be built from them. Memory that a word cannot
address is cut off and is no error; everything else that does not fit is.
-/

namespace Microcontroller

-- Powers are those that the numbers come with, which takes an exponent of a known type.
attribute [local instance (2000)] instPowNat

inductive ConfigError where
  | unsupportedBits
  | noRegisters
  | tooManyRegisters
  | noRam
  | zeroSpeed
  | tooManyDigital
  | tooManyAnalog
  | tooManyMapped
  deriving DecidableEq

def ConfigError.message : ConfigError → String
  | unsupportedBits => "bits must be 8, 16 or 32"
  | noRegisters => "registers must be positive"
  | tooManyRegisters => "registers must not exceed the address space"
  | noRam => "ram must be positive"
  | zeroSpeed => "speed must be positive"
  | tooManyDigital => "digital pins must be at most 64"
  | tooManyAnalog => "analog channels must be at most 8"
  | tooManyMapped => "mapped channels must fit above 0x20"

structure Config where
  bits : Nat
  registers : Nat
  ram : Nat
  rom : Nat
  digital : Nat
  analog : Nat
  mapped : Nat
  /-- Cycles per second. -/
  speed : Nat
  deriving DecidableEq

namespace Config

/-- The M1047, the smallest chip of its family. -/
def m1047 : Config where
  bits := 8
  registers := 8
  ram := 256
  rom := 64
  digital := 4
  analog := 2
  mapped := 32
  speed := 16

def width? (c : Config) : Option Width := Width.ofBits? c.bits

/-- Number of addresses a word can hold, or the largest 64-bit number where that is no longer
one. -/
def addressSpace (c : Config) : Nat :=
  if c.bits < 64 then 2 ^ c.bits else 2 ^ (64 : Nat) - 1

/-- Cells of RAM that can be addressed. -/
def ramSize (c : Config) : Nat := min c.ram c.addressSpace

def romSize (c : Config) : Nat := min c.rom c.addressSpace

/-- A chip without ROM runs its program from RAM. -/
def hasRom (c : Config) : Bool := 0 < c.rom

/-- Length of a clock tick in nanoseconds, rounded down; 0 for a clock that stands still. -/
def tickNanos (c : Config) : Nat := 10 ^ (9 : Nat) / c.speed

/-- The first thing wrong with a configuration, in the order of its fields but for the clock, which
comes before the I/O counts. -/
def validate (c : Config) : Except ConfigError Unit :=
  if c.width?.isNone then .error .unsupportedBits
  else if c.registers = 0 then .error .noRegisters
  else if c.addressSpace < c.registers then .error .tooManyRegisters
  else if c.ram = 0 then .error .noRam
  else if c.speed = 0 then .error .zeroSpeed
  else if AddressMap.digitalPins < c.digital then .error .tooManyDigital
  else if AddressMap.analogChannels < c.analog then .error .tooManyAnalog
  else if c.addressSpace - AddressMap.mappedBase < c.mapped then .error .tooManyMapped
  else .ok ()

def text (c : Config) : String :=
  "ChipConfig \x7b " ++ Numeral.decimal c.bits ++ "-bit, "
    ++ Numeral.decimal c.registers ++ " registers, "
    ++ "ram: " ++ Numeral.decimal c.ramSize ++ ", "
    ++ "rom: " ++ Numeral.decimal c.romSize ++ ", "
    ++ "io: " ++ Numeral.decimal c.digital ++ "d/" ++ Numeral.decimal c.analog ++ "a/"
    ++ Numeral.decimal c.mapped ++ "m, "
    ++ Numeral.decimal c.speed ++ " Hz \x7d"

end Config

end Microcontroller
