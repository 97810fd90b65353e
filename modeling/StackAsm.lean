import StackAsm.Assembly
import StackAsm.C.Semantics
import StackAsm.C.Syntax
import StackAsm.C.Text
import StackAsm.C.Value
import StackAsm.Column
import StackAsm.CommandLine.Command
import StackAsm.CommandLine.Directory
import StackAsm.CommandLine.Options
import StackAsm.Compiler
import StackAsm.Compiler.Library
import StackAsm.Decimal
import StackAsm.Image
import StackAsm.Image.Reader
import StackAsm.Instruction
import StackAsm.Listing
import StackAsm.Location
import StackAsm.Machine.Basic
import StackAsm.Machine.Numeral
import StackAsm.Machine.Run
import StackAsm.Machine.Step
import StackAsm.Machine.Stream
import StackAsm.Main
import StackAsm.Program
import StackAsm.Resolution
import StackAsm.Session.Debugger
import StackAsm.Session.Interactive
import StackAsm.Source
import StackAsm.Token
import StackAsm.Utf8
import StackAsm.Proofs.Numeral
import StackAsm.Proofs.Resolution
import StackAsm.Proofs.Image
import StackAsm.Proofs.Image.Truncation
import StackAsm.Proofs.Image.Canonical
import StackAsm.Proofs.Source.Grammar
import StackAsm.Proofs.Step
import StackAsm.Proofs.Reachable
import StackAsm.Proofs.C.Evaluation
import StackAsm.Proofs.Compiler.Memory
import StackAsm.Proofs.Compiler.Library
import StackAsm.Proofs.Compiler.Input
import StackAsm.Proofs.Compiler.ReadInteger
import StackAsm.Proofs.Compiler.Instruction
import StackAsm.Proofs.Compiler.Turn
import StackAsm.Proofs.Compiler.Simulation
import StackAsm.Proofs.Diagnosis
import StackAsm.Proofs.C.Ensures
import StackAsm.Proofs.Compiler.Safety.Allowed
import StackAsm.Proofs.Compiler.Safety.Library
import StackAsm.Proofs.Compiler.Safety.Limit
import StackAsm.Proofs.Compiler.Safety.ReadInteger
import StackAsm.Proofs.Compiler.Safety.Instruction
import StackAsm.Proofs.Compiler.Safety.Program
import StackAsm.Proofs.Compiler.IntegerInput
import StackAsm.Proofs.Effect
import StackAsm.Proofs.Resolution.Parts
import StackAsm.Proofs.Relocation
import StackAsm.Proofs.Source.Lines
import StackAsm.Proofs.Source.Pieces
import StackAsm.Proofs.Source.Printing
import StackAsm.Proofs.Session.Turns
import StackAsm.Proofs.Session.Batch
import StackAsm.Proofs.Loading
import StackAsm.Proofs.Session.Lines
import StackAsm.Proofs.C.Preprocessing
import StackAsm.Proofs.C.WholeText
import StackAsm.Proofs.Compiler.Comments
import StackAsm.Proofs.CommandLine.Directory
import StackAsm.Proofs.CommandLine.Arguments
import StackAsm.Proofs.CommandLine.Image
import StackAsm.Proofs.Session.Debugging
import StackAsm.Proofs.Session.Rejection
import StackAsm.Proofs.Locations
import StackAsm.Proofs.Effect.Table
import StackAsm.Proofs.Effect.Unnoticed
import StackAsm.Proofs.Lookahead
import StackAsm.Proofs.Budget
import StackAsm.Proofs.Resolution.Faults
import StackAsm.Proofs.Loading.Extension
import StackAsm.Proofs.Numeral.Reading
import StackAsm.Proofs.Numeral.Printing
import StackAsm.Proofs.Capacity
import StackAsm.Proofs.Resolution.Names
import StackAsm.Proofs.Source.Faults
import StackAsm.Proofs.Listing
import StackAsm.Proofs.Listing.Unambiguous
import StackAsm.Proofs.CommandLine.Files
import StackAsm.Proofs.Session.Budget
import StackAsm.Proofs.Session.DebugBudget
import StackAsm.Proofs.Echo
