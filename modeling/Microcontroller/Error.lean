import Microcontroller.Bits.Byte
import Microcontroller.Config
/-!
# Errors of definition and access

What can be wrong with an instruction table, a line of assembly, a configuration, or an index into
the chip's storage.
-/

namespace Microcontroller

inductive Error where
  | invalidConfig (cause : ConfigError)
  | outOfBounds (index len : Nat)
  | unsupportedWidth (bits : Nat)
  | unknownMnemonic (mnemonic : String)
  | unknownOpcode (opcode : Byte)
  | duplicateOpcode (opcode : Byte) (first second : String)
  | duplicateMnemonic (mnemonic : String)
  | operandCount (mnemonic : String) (expected found : Nat)
  | operandRange (mnemonic : String) (value : Int) (bits : Nat)
  deriving DecidableEq

namespace Error

def message : Error → String
  | invalidConfig cause => "Invalid configuration: " ++ cause.message
  | outOfBounds index len =>
      "Index " ++ Numeral.decimal index ++ " out of bounds (size " ++ Numeral.decimal len ++ ")"
  | unsupportedWidth bits => "Unsupported width: " ++ Numeral.decimal bits ++ " bits"
  | unknownMnemonic mnemonic => "Unknown mnemonic: " ++ mnemonic
  | unknownOpcode opcode => "Unknown opcode: " ++ Numeral.hex 2 opcode.toNat
  | duplicateOpcode opcode first second =>
      "Duplicate opcode " ++ Numeral.hex 2 opcode.toNat ++ " (" ++ first ++ " and " ++ second ++ ")"
  | duplicateMnemonic mnemonic => "Duplicate mnemonic: " ++ mnemonic
  | operandCount mnemonic expected found =>
      mnemonic ++ " takes " ++ Numeral.decimal expected ++ " operand(s), found "
        ++ Numeral.decimal found
  | operandRange mnemonic value bits =>
      mnemonic ++ ": operand " ++ Numeral.signed value ++ " does not fit "
        ++ Numeral.decimal bits ++ " bits"

def isBounds : Error → Bool
  | outOfBounds .. => true
  | _ => false

end Error

end Microcontroller
