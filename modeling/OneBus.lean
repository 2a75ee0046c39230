import OneBus.Alu
import OneBus.Assembly.Encoding
import OneBus.Assembly.Layout
import OneBus.Assembly.Numeral
import OneBus.Assembly.Operand
import OneBus.Assembly.Report
import OneBus.Assembly.Source
import OneBus.Assembly.Statement
import OneBus.Clock
import OneBus.CommandLine.Command
import OneBus.CommandLine.Console
import OneBus.CommandLine.Execution
import OneBus.CommandLine.Flag
import OneBus.CommandLine.Help
import OneBus.Configuration
import OneBus.ControlWord
import OneBus.Debugger.Basic
import OneBus.Debugger.Keys
import OneBus.Debugger.OutputLog
import OneBus.Debugger.View
import OneBus.Device
import OneBus.Exchange
import OneBus.Files.Access
import OneBus.Files.Path
import OneBus.Files.Programs
import OneBus.Files.Tree
import OneBus.Image
import OneBus.Json.Codec
import OneBus.Json.Reader
import OneBus.Json.Value
import OneBus.Listing
import OneBus.Machine.Basic
import OneBus.Machine.Journal
import OneBus.Machine.Run
import OneBus.Machine.Snapshot
import OneBus.Machine.Text
import OneBus.Machine.Tick
import OneBus.Main
import OneBus.Memory
import OneBus.Microprogram
import OneBus.Opcode
import OneBus.Peripheral
import OneBus.PortTable
import OneBus.Proofs.Acceptance
import OneBus.Proofs.Actions
import OneBus.Proofs.Addresses
import OneBus.Proofs.Advance
import OneBus.Proofs.Alike
import OneBus.Proofs.Backlog
import OneBus.Proofs.Breakpoints
import OneBus.Proofs.Consistency
import OneBus.Proofs.Control
import OneBus.Proofs.Conversation
import OneBus.Proofs.Executed
import OneBus.Proofs.Failing
import OneBus.Proofs.Faults
import OneBus.Proofs.Fetching
import OneBus.Proofs.Grammar
import OneBus.Proofs.ImageBytes
import OneBus.Proofs.Instruction
import OneBus.Proofs.Isolation
import OneBus.Proofs.Journal
import OneBus.Proofs.JsonText
import OneBus.Proofs.Landing
import OneBus.Proofs.Lines
import OneBus.Proofs.Literals
import OneBus.Proofs.Loading
import OneBus.Proofs.Lookahead
import OneBus.Proofs.Mnemonics
import OneBus.Proofs.Numerals
import OneBus.Proofs.Operands
import OneBus.Proofs.Output
import OneBus.Proofs.Parting
import OneBus.Proofs.Phrasing
import OneBus.Proofs.Positions
import OneBus.Proofs.Printing
import OneBus.Proofs.Priority
import OneBus.Proofs.Reassembly
import OneBus.Proofs.Refinement
import OneBus.Proofs.Relisting
import OneBus.Proofs.Reports
import OneBus.Proofs.Sequencer
import OneBus.Proofs.Serialization
import OneBus.Proofs.Sign
import OneBus.Proofs.Signatures
import OneBus.Proofs.Simultaneity
import OneBus.Proofs.Spelling
import OneBus.Proofs.Stepping
import OneBus.Proofs.Stopped
import OneBus.Proofs.Survey
import OneBus.Proofs.Tokens
import OneBus.Proofs.Traffic
import OneBus.Proofs.Transfer
import OneBus.Proofs.Widening
import OneBus.Proofs.Window
import OneBus.Register
import OneBus.Screen
import OneBus.Signal
import OneBus.Text.Digits
import OneBus.Text.Hidden
import OneBus.Text.Number
import OneBus.Text.Quoted
import OneBus.Text.Split
import OneBus.Word
