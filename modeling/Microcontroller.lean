import Microcontroller.Image.Digest
import Microcontroller.Chip.Restore
import Microcontroller.Isa.M1047
import Microcontroller.Bits.Cursor
import Microcontroller.Session
import Microcontroller.Clock
import Microcontroller.Proofs.Result
import Microcontroller.Proofs.Word.Pattern
import Microcontroller.Proofs.Word.Row
import Microcontroller.Proofs.Isa.Layout
import Microcontroller.Proofs.Chip.Reachable
import Microcontroller.Proofs.Chip.Fault
import Microcontroller.Proofs.Chip.Representation
import Microcontroller.Proofs.Chip.Demand
import Microcontroller.Proofs.Chip.Report
import Microcontroller.Proofs.M1047.Table
import Microcontroller.Proofs.M1047.Admission
import Microcontroller.Proofs.AddressMap
import Microcontroller.Proofs.Chip.Arithmetic
import Microcontroller.Proofs.Chip.Effect
import Microcontroller.Proofs.M1047.Arithmetic
import Microcontroller.Proofs.Image.Snapshot
import Microcontroller.Proofs.Chip.Restore
import Microcontroller.Proofs.M1047.Step
import Microcontroller.Proofs.M1047.Transfer
import Microcontroller.Proofs.Word.TwosComplement
import Microcontroller.Proofs.Chip.Flow
import Microcontroller.Proofs.Chip.Program
import Microcontroller.Proofs.M1047.Next
import Microcontroller.Proofs.M1047.Branch
import Microcontroller.Proofs.Isa.Encode
import Microcontroller.Proofs.Chip.Acceptance
import Microcontroller.Proofs.Isa.RoundTrip
import Microcontroller.Proofs.Isa.Listing
import Microcontroller.Proofs.Chip.Assembly
import Microcontroller.Proofs.Chip.FaultNumbers
import Microcontroller.Proofs.Chip.Numbers
import Microcontroller.Proofs.Chip.Resume
import Microcontroller.Proofs.Chip.Shape
import Microcontroller.Proofs.Chip.Reach
import Microcontroller.Proofs.Chip.Frame
import Microcontroller.Proofs.Chip.Undeclared
import Microcontroller.Proofs.Chip.Boots
import Microcontroller.Proofs.Session.Step
import Microcontroller.Proofs.Session.Safety
import Microcontroller.Proofs.Session.Alone
import Microcontroller.Proofs.Chip.Run
import Microcontroller.Proofs.Chip.History
import Microcontroller.Proofs.M1047.Stack
import Microcontroller.Proofs.Chip.Exact
import Microcontroller.Proofs.Chip.Limbs
import Microcontroller.Proofs.Chip.Shift
import Microcontroller.Proofs.Chip.Reading
import Microcontroller.Proofs.Chip.Disassembly
import Microcontroller.Proofs.M1047.Mnemonic
import Microcontroller.Proofs.M1047.InputOutput
import Microcontroller.Proofs.M1047.PointerPair
import Microcontroller.Proofs.M1047.Comparison
import Microcontroller.Proofs.M1047.FaultReport
import Microcontroller.Proofs.Unguarded.Steps
import Microcontroller.Proofs.Unguarded.Word
import Microcontroller.Proofs.Unguarded.Bits
import Microcontroller.Proofs.Unguarded.Isa
import Microcontroller.Proofs.Unguarded.Alu
import Microcontroller.Proofs.Unguarded.Plan
import Microcontroller.Proofs.Unguarded.Storage
import Microcontroller.Proofs.Unguarded.Chip
import Microcontroller.Proofs.LetterCase
import Microcontroller.Proofs.Numeral
import Microcontroller.Proofs.Isa.Text
import Microcontroller.Proofs.Isa.Table
import Microcontroller.Proofs.Isa.Index
import Microcontroller.Proofs.Bits.Value
import Microcontroller.Proofs.Chip.Flag
import Microcontroller.Proofs.InPlace
import Microcontroller.Proofs.Chip.BulkLoad
import Microcontroller.Proofs.Chip.Execution
import Microcontroller.Proofs.Bits.Cursor
import Microcontroller.Proofs.Bits.Sequence
import Microcontroller.Proofs.Chip.Counter
import Microcontroller.Proofs.Clock
import Microcontroller.Proofs.Chip.Construction
import Microcontroller.Proofs.Word.Residue
import Microcontroller.Proofs.Word.Change
import Microcontroller.Proofs.Word.Independence
