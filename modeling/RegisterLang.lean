import RegisterLang.Text.Blank
import RegisterLang.Text.NameChar
import RegisterLang.Text.Numeral
import RegisterLang.Text.Utf8
import RegisterLang.Position
import RegisterLang.Operator
import RegisterLang.Relation
import RegisterLang.Instr
import RegisterLang.SymbolTable
import RegisterLang.Machine.Arithmetic
import RegisterLang.Machine.Fault
import RegisterLang.Machine.Basic
import RegisterLang.Machine.Run
import RegisterLang.Bytes
import RegisterLang.Program.Stream
import RegisterLang.Program.Listing
import RegisterLang.Image.Varint
import RegisterLang.Image.Header
import RegisterLang.Image.Container
import RegisterLang.Token.Basic
import RegisterLang.Token.Scan
import RegisterLang.CodeUnit
import RegisterLang.Statement.Body
import RegisterLang.Statement.Layout
import RegisterLang.Statement.Meaning
import RegisterLang.File.Disk
import RegisterLang.File.Path
import RegisterLang.File.System
import RegisterLang.Toolchain
import RegisterLang.Command.Arguments
import RegisterLang.Command.Basic
import RegisterLang.Main
import RegisterLang.Proofs.Emission
import RegisterLang.Proofs.Runs
import RegisterLang.Proofs.Simulation
import RegisterLang.Proofs.Framing
import RegisterLang.Proofs.Container
import RegisterLang.Proofs.Normalization
import RegisterLang.Proofs.Spelling
import RegisterLang.Proofs.Balance
import RegisterLang.Proofs.Verdict
import RegisterLang.Proofs.Scanning
import RegisterLang.Proofs.Control
import RegisterLang.Proofs.Pipeline
import RegisterLang.Proofs.Positions
import RegisterLang.Proofs.Limits
import RegisterLang.Proofs.Exactness
import RegisterLang.Proofs.Faults
import RegisterLang.Proofs.Malformation
import RegisterLang.Proofs.Files
import RegisterLang.Proofs.Encoding
import RegisterLang.Proofs.Slots
import RegisterLang.Proofs.Truncation
import RegisterLang.Proofs.Renaming
import RegisterLang.Proofs.Termination
import RegisterLang.Proofs.Rejection
import RegisterLang.Proofs.Concatenation
import RegisterLang.Proofs.Respacing
import RegisterLang.Proofs.Interning
import RegisterLang.Proofs.Displacement
import RegisterLang.Proofs.Lines
import RegisterLang.Proofs.Legibility
