import A64Lowering.A64.Convention
import A64Lowering.A64.Frame
import A64Lowering.A64.Inst
import A64Lowering.A64.Pool
import A64Lowering.A64.Text
import A64Lowering.Diagnostic
import A64Lowering.Ir.Draft
import A64Lowering.Ir.Instruction
import A64Lowering.Ir.Interchange
import A64Lowering.Ir.Listing
import A64Lowering.Ir.Program
import A64Lowering.Json.Printer
import A64Lowering.Json.Reader
import A64Lowering.Json.Record
import A64Lowering.Json.Spelling
import A64Lowering.Json.Token
import A64Lowering.Json.Value
import A64Lowering.Lowering.Data
import A64Lowering.Lowering.Fault
import A64Lowering.Lowering.Fragment
import A64Lowering.Lowering.Instruction
import A64Lowering.Lowering.Layout
import A64Lowering.Lowering.Program
import A64Lowering.Lowering.Scratch
import A64Lowering.Lowering.Site
import A64Lowering.NameMap
import A64Lowering.Session
import A64Lowering.Settings
import A64Lowering.Symbol.Instance
import A64Lowering.Symbol.Scope
import A64Lowering.Symbol.Table
import A64Lowering.Text.Blank
import A64Lowering.Text.Decimal
import A64Lowering.Text.Lines
import A64Lowering.Ty
import A64Lowering.Ty.Interchange
import A64Lowering.VReg
import A64Lowering.Word
import A64Lowering.Proofs.Machine.Exec
import A64Lowering.Proofs.Machine.Run
import A64Lowering.Proofs.Machine.Frame
import A64Lowering.Proofs.Ir.Meaning
import A64Lowering.Proofs.Lowering.Emits
import A64Lowering.Proofs.Lowering.Homes
import A64Lowering.Proofs.Lowering.Related
import A64Lowering.Proofs.Lowering.Transfer
import A64Lowering.Proofs.Lowering.InstructionMeaning
import A64Lowering.Proofs.Lowering.FragmentMeaning
import A64Lowering.Proofs.Stack.Activation
import A64Lowering.Proofs.Stack.Link
import A64Lowering.Proofs.Stack.Chain
import A64Lowering.Proofs.Stack.Regions
import A64Lowering.Proofs.Symbol.Chain
import A64Lowering.Proofs.Symbol.Building
import A64Lowering.Proofs.Symbol.Root
import A64Lowering.Proofs.Symbol.Fields
import A64Lowering.Proofs.Symbol.Recursion
import A64Lowering.Proofs.Symbol.Copy
import A64Lowering.Proofs.Symbol.Registers
import A64Lowering.Proofs.Symbol.Nesting
import A64Lowering.Proofs.Symbol.Termination
import A64Lowering.Proofs.Symbol.Failure
import A64Lowering.Proofs.Json.RoundTrip
import A64Lowering.Proofs.Ir.Interchange
import A64Lowering.Proofs.Lowering.Sequence
import A64Lowering.Proofs.Lowering.Faults
import A64Lowering.Proofs.Program.Lowerable
import A64Lowering.Proofs.Lowering.Renaming
import A64Lowering.Proofs.Lowering.Forms
import A64Lowering.Proofs.Lowering.References
import A64Lowering.Proofs.Program.Linkage
import A64Lowering.Proofs.Program.Separate
import A64Lowering.Proofs.Text.Lines
import A64Lowering.Proofs.Lowering.Annotation
import A64Lowering.Proofs.Program.Annotation
import A64Lowering.Proofs.Stack.Depth
import A64Lowering.Proofs.Stack.Discipline
import A64Lowering.Proofs.Symbol.Lexical
import A64Lowering.Proofs.Symbol.Furnishing
import A64Lowering.Proofs.Symbol.Edits
import A64Lowering.Proofs.Symbol.Ordered
import A64Lowering.Proofs.Symbol.Storage
import A64Lowering.Proofs.Session.Registers
import A64Lowering.Proofs.Lowering.Borrowing
import A64Lowering.Proofs.Lowering.Writes
import A64Lowering.Proofs.Lowering.Outcome
import A64Lowering.Proofs.Lowering.Placement
import A64Lowering.Proofs.Stack.Frames
import A64Lowering.Proofs.Lowering.Calls
import A64Lowering.Proofs.Lowering.Supply
import A64Lowering.Proofs.Lowering.Fields
import A64Lowering.Proofs.Pool.Holdings
import A64Lowering.Proofs.Lowering.Slots
import A64Lowering.Proofs.Text.Operands
import A64Lowering.Proofs.Symbol.Globals
import A64Lowering.Proofs.Program.DataSection
