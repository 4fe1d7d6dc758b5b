import GenomeMachine.Number.Binary
import GenomeMachine.Number.Decimal
import GenomeMachine.Text.Blank
import GenomeMachine.Text.Numeral
import GenomeMachine.Text.Decimal
import GenomeMachine.Genome.Instruction
import GenomeMachine.Genome.Codec
import GenomeMachine.Catalog.Opcode
import GenomeMachine.Catalog.Basic
import GenomeMachine.Catalog.Standard
import GenomeMachine.Listing.Token
import GenomeMachine.Listing.Assemble
import GenomeMachine.Listing.Print
import GenomeMachine.Machine.Cells
import GenomeMachine.Machine.Basic
import GenomeMachine.Machine.Board
import GenomeMachine.Machine.Scope
import GenomeMachine.Machine.Data
import GenomeMachine.Machine.Control
import GenomeMachine.Machine.Dispatch
import GenomeMachine.Machine.Step
import GenomeMachine.Machine.Trace
import GenomeMachine.Command.Path
import GenomeMachine.Command.Disk
import GenomeMachine.Command.Arguments
import GenomeMachine.Command.Task
import GenomeMachine.Main
import GenomeMachine.Proofs.Catalog.Standard
import GenomeMachine.Proofs.Operation
import GenomeMachine.Proofs.Store
import GenomeMachine.Proofs.Scope.Moves
import GenomeMachine.Proofs.Scope.Stack
import GenomeMachine.Proofs.Scope.Backups
import GenomeMachine.Proofs.Scope.Resolution
import GenomeMachine.Proofs.Dispatch.Chain
import GenomeMachine.Proofs.Structured.Program
import GenomeMachine.Proofs.Structured.Semantics
import GenomeMachine.Proofs.Structured.Steps
import GenomeMachine.Proofs.Structured.Openers
import GenomeMachine.Proofs.Structured.Simulation
import GenomeMachine.Proofs.Structured.Correctness
import GenomeMachine.Proofs.Dispatch.Outcome
import GenomeMachine.Proofs.Scope.Meaning
import GenomeMachine.Proofs.Dispatch.Disguise
import GenomeMachine.Proofs.Run.Course
import GenomeMachine.Proofs.Run.Provenance
import GenomeMachine.Proofs.Calls.Returns
import GenomeMachine.Proofs.Calls.Abandoned
import GenomeMachine.Proofs.Dispatch.Recursive
import GenomeMachine.Proofs.Run.Failure
import GenomeMachine.Proofs.Run.Depths
import GenomeMachine.Proofs.Catalog.Built
import GenomeMachine.Proofs.Text.Words
import GenomeMachine.Proofs.Text.Numeral
import GenomeMachine.Proofs.Listing.RoundTrip
import GenomeMachine.Proofs.Listing.Trim
import GenomeMachine.Proofs.Genome.Codec
import GenomeMachine.Proofs.Listing.Stability
import GenomeMachine.Proofs.Listing.Grammar
import GenomeMachine.Proofs.Run.Effects
import GenomeMachine.Proofs.Run.Prediction
import GenomeMachine.Proofs.Run.Countdown
import GenomeMachine.Proofs.Scope.Unwinding
import GenomeMachine.Proofs.Scope.Skipping
import GenomeMachine.Proofs.Traits
import GenomeMachine.Proofs.Reset
import GenomeMachine.Proofs.Command.Path
import GenomeMachine.Proofs.Command.Disk
import GenomeMachine.Proofs.Command.Interchange
import GenomeMachine.Proofs.Listing.Locality
import GenomeMachine.Proofs.Board
import GenomeMachine.Proofs.Memory
import GenomeMachine.Proofs.Run.Batches
import GenomeMachine.Proofs.Run.Tracing
