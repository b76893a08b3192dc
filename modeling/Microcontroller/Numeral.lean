/-!
# Numerals

The spellings of numbers in messages, listings and assembly text. A numeral is a list of digits,
most significant first; a field width only ever adds zeros in front, so the digits of the number are
always a tail of what is written.
-/

namespace Microcontroller.Numeral

/-- The digits of `n` in base `base`, filled up with zeros to at least `width` places. -/
def digits (base width n : Nat) : List Char :=
  (Nat.toDigits base n).leftpad width '0'

def decimal (n : Nat) : String :=
  String.ofList (digits 10 0 n)

/-- Lower-case hexadecimal of at least `width` digits, after `0x`. -/
def hex (width n : Nat) : String :=
  "0x" ++ String.ofList (digits 16 width n)

/-- Upper-case hexadecimal of at least `width` digits, with nothing before it. -/
def upperHexDigits (width n : Nat) : String :=
  String.ofList ((digits 16 width n).map Char.toUpper)

/-- Upper-case hexadecimal of at least `width` digits, after `0x`. -/
def upperHex (width n : Nat) : String :=
  "0x" ++ upperHexDigits width n

/-- Decimal with a minus sign where one is due. -/
def signed (x : Int) : String :=
  (if x < 0 then "-" else "") ++ decimal x.natAbs

/-- Decimal that always carries its sign; zero is positive. -/
def withSign (x : Int) : String :=
  (if x < 0 then "-" else "+") ++ decimal x.natAbs

end Microcontroller.Numeral
