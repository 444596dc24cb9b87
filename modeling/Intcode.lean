import Intcode.Command
import Intcode.Command.Files
import Intcode.Command.Line
import Intcode.Command.Options
import Intcode.Command.Poke
import Intcode.Command.Task
import Intcode.Error
import Intcode.Error.Kind
import Intcode.Fault
import Intcode.Instruction
import Intcode.Instruction.Opcode
import Intcode.Json
import Intcode.Json.Access
import Intcode.Json.Magnitude
import Intcode.Json.Reader
import Intcode.Listing
import Intcode.Machine
import Intcode.Machine.Step
import Intcode.Machine.Execute
import Intcode.Main
import Intcode.Memory
import Intcode.Named
import Intcode.Network
import Intcode.Pipeline
import Intcode.Pipeline.Form
import Intcode.Pipeline.Report
import Intcode.ProgramText
import Intcode.Tape
import Intcode.Text.Blank
import Intcode.Text.Numeral
import Intcode.Text.Record
import Intcode.Text.Unprintable
import Intcode.Text.Visible
import Intcode.Word
import Intcode.Proofs.Plan
import Intcode.Proofs.Runs
import Intcode.Proofs.Addresses
import Intcode.Proofs.Decode
import Intcode.Proofs.Reference
import Intcode.Proofs.Faults
import Intcode.Proofs.Resumption
import Intcode.Proofs.Determinacy
import Intcode.Proofs.Cells
import Intcode.Proofs.Histories
import Intcode.Proofs.Influence
import Intcode.Proofs.Verdicts
import Intcode.Proofs.Forward
import Intcode.Proofs.Calls
import Intcode.Proofs.Seeds
import Intcode.Proofs.Chains
import Intcode.Proofs.Grammar
import Intcode.Proofs.Piecemeal
import Intcode.Proofs.Deliveries
import Intcode.Proofs.Forks
import Intcode.Proofs.Breakdowns
import Intcode.Proofs.Provenance
import Intcode.Proofs.Agreement
import Intcode.Proofs.Diagnosis
import Intcode.Proofs.Layouts
import Intcode.Proofs.Lines
import Intcode.Proofs.Wiring
import Intcode.Proofs.Printouts
import Intcode.Proofs.Finality
import Intcode.Proofs.Thresholds
import Intcode.Proofs.Sweeps
import Intcode.Proofs.Tokens
import Intcode.Proofs.Encoding
import Intcode.Proofs.Progress
import Intcode.Proofs.Allotment
import Intcode.Proofs.Ledgers
import Intcode.Proofs.LineTexts
import Intcode.Proofs.Documents
import Intcode.Proofs.Reports
import Intcode.Proofs.OneLine
import Intcode.Proofs.Patches
