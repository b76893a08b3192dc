import Microcontroller.Isa.Decode
/-!
# Assembly text

Instructions as text, and the listing of a program. A listing sweeps a program from its first cell
to its last: an instruction moves it on by its size, a cell that starts none by one, and an
instruction that the end of the program cuts short ends it.
-/

namespace Microcontroller

namespace Decoded

def operandText (d : Decoded) (kind : OperandKind) (cell : Nat) : String :=
  match kind with
  | .destination | .source | .result => "r" ++ Numeral.decimal cell
  | .pointer =>
    match Pointer.ofIndex? cell with
    | some p => p.name
    | none => "?" ++ Numeral.decimal cell
  | .offset => Numeral.withSign (d.instruction.offset d.width cell)
  | .address | .ioAddress => Numeral.hex 2 cell
  | .immediate | .bit | .flagBit => Numeral.decimal cell

def mnemonicText (d : Decoded) : String :=
  String.ofList (d.instruction.mnemonic.toList.map Char.toLower)

def text (d : Decoded) : String :=
  if d.operands.isEmpty then d.mnemonicText
  else d.mnemonicText ++ " "
    ++ ", ".intercalate (d.fields.map fun (kind, cell) => d.operandText kind cell)

end Decoded

namespace Listing

/-- What a listing shows at an address. -/
structure Entry where
  address : Nat
  /-- The cells it accounts for. -/
  cells : List Nat
  content : Except DecodeError Decoded

/-- The entries from `offset` on, for a program that starts at `origin`. -/
def entriesFrom (s : InstructionSet) (w : Width) (origin : Nat) (program : Array Nat)
    (offset : Nat) : List Entry :=
  if offset < program.size then
    let here (size : Nat) content : Entry :=
      ⟨origin + offset, (program.extract offset (offset + size)).toList, content⟩
    match s.decodeAt w program offset with
    | .ok d => here d.size (.ok d) :: entriesFrom s w origin program (offset + d.size)
    | .error e@(.truncated ..) => [here (program.size - offset) (.error e)]
    | .error e => here 1 (.error e) :: entriesFrom s w origin program (offset + 1)
  else []
  termination_by program.size - offset
  decreasing_by
    · have : 0 < d.size := by simp only [Decoded.size, Instruction.size]; omega
      omega
    · omega

def entries (s : InstructionSet) (w : Width) (origin : Nat) (cells : List Nat) : List Entry :=
  entriesFrom s w origin cells.toArray 0

def Entry.isInstruction (e : Entry) : Bool :=
  match e.content with
  | .ok _ => true
  | .error _ => false

def cellColumns : Nat := 24

/-- A text filled up with blanks to at least `columns` characters. -/
def padded (columns : Nat) (text : String) : String :=
  text ++ String.ofList (List.replicate (columns - text.length) ' ')

def cellsText (w : Width) (cells : List Nat) : String :=
  " ".intercalate (cells.map (Numeral.upperHexDigits (w.bits / 4)))

def Entry.text (w : Width) (e : Entry) : String :=
  Numeral.upperHex 4 e.address ++ ":  "
    ++ match e.content with
      | .ok d => padded cellColumns (cellsText w e.cells) ++ d.text
      | .error cause => "; ERROR: " ++ cause.message

/-- The lines of a listing. -/
def lines (s : InstructionSet) (w : Width) (origin : Nat) (cells : List Nat) : List String :=
  let body := entries s w origin cells
  let instructions := body.countP Entry.isInstruction
  [ "; " ++ s.name ++ " disassembly",
    "; Origin: " ++ Numeral.upperHex 4 origin,
    "; Code size: " ++ Numeral.decimal cells.length ++ " cells ("
      ++ Numeral.decimal instructions ++ " instructions)",
    "" ] ++ body.map (Entry.text w)

/-- A listing; each of its lines ends in a newline. -/
def text (s : InstructionSet) (w : Width) (origin : Nat) (cells : List Nat) : String :=
  String.join ((lines s w origin cells).map (· ++ "\n"))

end Listing

end Microcontroller
