import Microlab.Arch
import Microlab.Arch.Json
import Microlab.Assembly
import Microlab.Command.Assemble
import Microlab.Command.Basic
import Microlab.Command.Disassemble
import Microlab.Command.FileSystem
import Microlab.Command.Files
import Microlab.Command.Options
import Microlab.Command.Outcome
import Microlab.Command.Report
import Microlab.Command.Run
import Microlab.Cpu
import Microlab.Disassembly
import Microlab.I8051.Action
import Microlab.I8051.Handler
import Microlab.I8051.Machine
import Microlab.I8051.Opcodes
import Microlab.I8051.Operation
import Microlab.I8051.Register
import Microlab.I8051.Status
import Microlab.I8086.Flags
import Microlab.I8086.Handler
import Microlab.I8086.Machine
import Microlab.I8086.Names
import Microlab.I8086.Opcodes
import Microlab.I8086.Operation
import Microlab.I8086.Register
import Microlab.Image
import Microlab.Instruction
import Microlab.Json.Basic
import Microlab.Json.Printer
import Microlab.Json.Reader
import Microlab.Keyword
import Microlab.Literal
import Microlab.Main
import Microlab.Memory
import Microlab.Memory.Action
import Microlab.Mnemonic
import Microlab.Opcode.Decoding
import Microlab.Opcode.Encoding
import Microlab.Opcode.Entry
import Microlab.Opcode.Pattern
import Microlab.Proofs.Acceptance
import Microlab.Proofs.Command.Preload
import Microlab.Proofs.Composition
import Microlab.Proofs.Disassembly
import Microlab.Proofs.I8051.Accumulator
import Microlab.Proofs.I8051.Arithmetic
import Microlab.Proofs.I8051.Effect
import Microlab.Proofs.I8051.Handler
import Microlab.Proofs.I8051.LongArithmetic
import Microlab.Proofs.I8051.Names
import Microlab.Proofs.I8051.Operand
import Microlab.Proofs.I8051.Operation
import Microlab.Proofs.I8051.Parity
import Microlab.Proofs.I8051.Refusal
import Microlab.Proofs.I8051.Sum
import Microlab.Proofs.I8051.Trace
import Microlab.Proofs.I8086.Arithmetic
import Microlab.Proofs.I8086.Effect
import Microlab.Proofs.I8086.Flags
import Microlab.Proofs.I8086.Frame
import Microlab.Proofs.I8086.Handler
import Microlab.Proofs.I8086.Names
import Microlab.Proofs.I8086.Operand
import Microlab.Proofs.I8086.Operation
import Microlab.Proofs.I8086.Refusal
import Microlab.Proofs.I8086.RegisterFile
import Microlab.Proofs.I8086.Stack
import Microlab.Proofs.I8086.Trace
import Microlab.Proofs.Image
import Microlab.Proofs.Instruction
import Microlab.Proofs.Keyword
import Microlab.Proofs.Layout
import Microlab.Proofs.LetterCase
import Microlab.Proofs.Literal
import Microlab.Proofs.LiteralGrammar
import Microlab.Proofs.Meaning
import Microlab.Proofs.Memory
import Microlab.Proofs.Memory.History
import Microlab.Proofs.Mnemonic
import Microlab.Proofs.Opcode.Binding
import Microlab.Proofs.Opcode.Decoding
import Microlab.Proofs.Opcode.Encoding
import Microlab.Proofs.Opcode.FirstMatch
import Microlab.Proofs.Opcode.NormalForm
import Microlab.Proofs.Opcode.Selection
import Microlab.Proofs.Opcode.Shortening
import Microlab.Proofs.Opcode.Spelling
import Microlab.Proofs.Operand
import Microlab.Proofs.RangeListing
import Microlab.Proofs.Reading
import Microlab.Proofs.Reassembly
import Microlab.Proofs.Refusal
import Microlab.Proofs.RegisterFile
import Microlab.Proofs.RegisterName
import Microlab.Proofs.Resolution
import Microlab.Proofs.Session.Halt
import Microlab.Proofs.Session.Isolation
import Microlab.Proofs.Session.Machines
import Microlab.Proofs.Session.Reset
import Microlab.Proofs.Session.Resumption
import Microlab.Proofs.Session.Run
import Microlab.Proofs.Session.Spelling
import Microlab.Proofs.Session.Walk
import Microlab.Proofs.Step
import Microlab.Proofs.Text.Blank
import Microlab.Proofs.Text.Capitals
import Microlab.Proofs.Text.Letter
import Microlab.Proofs.Text.Line
import Microlab.Proofs.Trace
import Microlab.Proofs.WholeNumber
import Microlab.Proofs.Word
import Microlab.Refusal
import Microlab.Resolution
import Microlab.Session.Action
import Microlab.Session.Basic
import Microlab.Session.Config
import Microlab.Session.Log
import Microlab.Session.Walk
import Microlab.Snapshot
import Microlab.Snapshot.Json
import Microlab.Step
import Microlab.Text.Blank
import Microlab.Text.Graphic
import Microlab.Text.Letter
import Microlab.Text.Line
import Microlab.Text.Numeral
import Microlab.Text.Quoted
import Microlab.Word
