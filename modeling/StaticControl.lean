import StaticControl.Main
import StaticControl.Proofs.Json.RoundTrip
import StaticControl.Proofs.Exchange.Stability
import StaticControl.Proofs.Relation.Reachable
import StaticControl.Proofs.Relation.DimensionAlgebra
import StaticControl.Proofs.Exchange.Passing
import StaticControl.Proofs.Program.Integrity
import StaticControl.Proofs.Exchange.Lockstep
import StaticControl.Proofs.Exchange.Content
import StaticControl.Proofs.Exchange.Widening
import StaticControl.Proofs.Exchange.Rebreaking
import StaticControl.Proofs.Exchange.Concatenation
import StaticControl.Proofs.Exchange.Canonical
import StaticControl.Proofs.Exchange.Registries
import StaticControl.Proofs.Relation.WidenedRuns
import StaticControl.Proofs.Exchange.ExpandedHeaders
import StaticControl.Proofs.Beta.Solving
import StaticControl.Proofs.Disjunction.InPlace
import StaticControl.Proofs.Settings.Freezing
import StaticControl.Proofs.Exchange.FaultyTexts
import StaticControl.Proofs.Beta.Inference
import StaticControl.Proofs.Relation.UnusedDimensions
import StaticControl.Proofs.Beta.Loops
import StaticControl.Proofs.Beta.Uniqueness
import StaticControl.Proofs.Coefficient.Arithmetic
import StaticControl.Proofs.Exchange.RawBlocks
import StaticControl.Proofs.Exchange.ParsedPayloads
import StaticControl.Proofs.Exchange.Headers
import StaticControl.Proofs.Text.Sums
import StaticControl.Proofs.Relation.Expressions
import StaticControl.Proofs.Exchange.MovedBlocks
import StaticControl.Proofs.Exchange.Drafts
import StaticControl.Proofs.Exchange.StatementOrder
import StaticControl.Proofs.Program.Coherence
import StaticControl.Proofs.CommandLine.Diagnostics
import StaticControl.Proofs.CommandLine.Checking
import StaticControl.Proofs.CommandLine.Environment
import StaticControl.Proofs.Extension.Queues
import StaticControl.Proofs.Exchange.Turns
import StaticControl.Proofs.Relation.ColumnIndexing
