import Microcontroller.Bits.Byte
import Microcontroller.Numeral
/-!
# Binary formats

A format writes values of a type as bytes and reads them back from the front of what follows. Formats
are put together from those of their parts: what a composed format writes is what its parts write,
one after the other, and a composed reader stops at the first part that cannot be read. Not every
value of a type has room in its format (a number may have too many bytes); `fits` says which do.
-/

namespace Microcontroller

-- Powers are those that the numbers come with, which takes an exponent of a known type.
attribute [local instance (2000)] instPowNat

/-- Why bytes could not be read. -/
inductive ReadError where
  | unexpectedEnd
  /-- The number of a variant, of a type that has only `count` of them. -/
  | variant (found count : Nat)
  /-- What stands where only 0, for nothing, and 1, for a value, may. -/
  | optionTag (found : Nat)
  deriving DecidableEq

def ReadError.message : ReadError → String
  | unexpectedEnd => "io error: unexpected end of file"
  | variant found count =>
      "invalid value: integer `" ++ Numeral.decimal found ++ "`, expected variant index 0 <= i < "
        ++ Numeral.decimal count
  | optionTag found => "tag for enum is not valid, found " ++ Numeral.decimal found

structure Format (α : Type) where
  write : α → List Byte
  /-- A value and the bytes after it. -/
  read : List Byte → Except ReadError (α × List Byte)
  fits : α → Prop

namespace Format

variable {α β : Type}

def byte : Format Byte where
  write b := [b]
  read
    | [] => .error .unexpectedEnd
    | b :: rest => .ok (b, rest)
  fits _ := True

def readNumber : Nat → List Byte → Except ReadError (Nat × List Byte)
  | 0, bytes => .ok (0, bytes)
  | _ + 1, [] => .error .unexpectedEnd
  | count + 1, b :: bytes => do
    let (high, rest) ← readNumber count bytes
    return (b.toNat + 256 * high, rest)

/-- A number of `count` bytes, least significant first. -/
def number (count : Nat) : Format Nat where
  write := Byte.littleEndian count
  read := readNumber count
  fits n := n < 256 ^ count

def pair (first : Format α) (second : Format β) : Format (α × β) where
  write x := first.write x.1 ++ second.write x.2
  read bytes := do
    let (a, bytes) ← first.read bytes
    let (b, bytes) ← second.read bytes
    return ((a, b), bytes)
  fits x := first.fits x.1 ∧ second.fits x.2

/-- A format for what `pack` makes of the values of another. -/
def map (format : Format α) (pack : α → β) (unpack : β → α) : Format β where
  write x := format.write (unpack x)
  read bytes := do
    let (a, bytes) ← format.read bytes
    return (pack a, bytes)
  fits x := format.fits (unpack x)

/-- One of a few values, as its place among them. -/
def choice (values : List α) (ordinal : α → Nat) : Format α where
  write x := (number 4).write (ordinal x)
  read bytes := do
    let (found, bytes) ← (number 4).read bytes
    match values[found]? with
    | some x => return (x, bytes)
    | none => throw (.variant found values.length)
  fits x := values[ordinal x]? = some x

/-- A value of one of two types, after the number of the type. -/
def either (first : Format α) (second : Format β) : Format (α ⊕ β) where
  write
    | .inl a => (number 4).write 0 ++ first.write a
    | .inr b => (number 4).write 1 ++ second.write b
  read bytes := do
    let (found, bytes) ← (number 4).read bytes
    match found with
    | 0 => let (a, bytes) ← first.read bytes; return (.inl a, bytes)
    | 1 => let (b, bytes) ← second.read bytes; return (.inr b, bytes)
    | _ => throw (.variant found 2)
  fits
    | .inl a => first.fits a
    | .inr b => second.fits b

/-- A value that may be missing. -/
def option (format : Format α) : Format (Option α) where
  write
    | none => byte.write 0
    | some a => byte.write 1 ++ format.write a
  read bytes := do
    let (found, bytes) ← byte.read bytes
    match found.toNat with
    | 0 => return (none, bytes)
    | 1 => let (a, bytes) ← format.read bytes; return (some a, bytes)
    | found => throw (.optionTag found)
  fits
    | none => True
    | some a => format.fits a

/-- Read `count` values after those already read, which stand in reverse. -/
def readMany (format : Format α) : Nat → List α → List Byte → Except ReadError (List α × List Byte)
  | 0, done, bytes => .ok (done.reverse, bytes)
  | count + 1, done, bytes =>
    match format.read bytes with
    | .ok (a, bytes) => readMany format count (a :: done) bytes
    | .error e => .error e

/-- Any number of values, after their number. -/
def list (format : Format α) : Format (List α) where
  write xs := (number 8).write xs.length ++ xs.flatMap format.write
  read bytes := do
    let (count, bytes) ← (number 8).read bytes
    readMany format count [] bytes
  fits xs := xs.length < 256 ^ (8 : Nat) ∧ ∀ x ∈ xs, format.fits x

end Format

end Microcontroller
