import RelScript.Analysis.Basic
import RelScript.Analysis.Coercion
import RelScript.Analysis.Resolver
import RelScript.Calendar
import RelScript.Config
import RelScript.DataType
import RelScript.Encoding.Plan
import RelScript.Encoding.Unit
import RelScript.Error
import RelScript.Execution.Aggregation
import RelScript.Execution.Batch
import RelScript.Execution.Compiled
import RelScript.Execution.Joining
import RelScript.Execution.Operators
import RelScript.Execution.UnitRun
import RelScript.Expr.Basic
import RelScript.Expr.Text
import RelScript.Ieee.Arithmetic
import RelScript.Ieee.Format
import RelScript.Ieee.Layout
import RelScript.Ieee.Reading
import RelScript.Ieee.Shortest
import RelScript.Metrics
import RelScript.Operator
import RelScript.Physical.Basic
import RelScript.Physical.Stage
import RelScript.Physical.Text
import RelScript.Plan.Basic
import RelScript.Plan.Text
import RelScript.Proofs.Analysis.Columns
import RelScript.Proofs.Analysis.Crossing
import RelScript.Proofs.Analysis.OutputSchema
import RelScript.Proofs.Analysis.Positions
import RelScript.Proofs.Analysis.Reanalysis
import RelScript.Proofs.Analysis.Renumbering
import RelScript.Proofs.Analysis.Resolver
import RelScript.Proofs.Analysis.Rules
import RelScript.Proofs.Analysis.Scoping
import RelScript.Proofs.Analysis.Typing
import RelScript.Proofs.Encoding.Fingerprint
import RelScript.Proofs.Execution.Alike
import RelScript.Proofs.Execution.CellAggregates
import RelScript.Proofs.Execution.CellGroups
import RelScript.Proofs.Execution.Crossing
import RelScript.Proofs.Execution.Failures
import RelScript.Proofs.Execution.GroupColumns
import RelScript.Proofs.Execution.GroupDefinition
import RelScript.Proofs.Execution.GroupIndex
import RelScript.Proofs.Execution.GroupTable
import RelScript.Proofs.Execution.IntegerGathering
import RelScript.Proofs.Execution.IntegerGroups
import RelScript.Proofs.Execution.IntegerPromotion
import RelScript.Proofs.Execution.JoinIndex
import RelScript.Proofs.Execution.KnownRows
import RelScript.Proofs.Execution.Layout
import RelScript.Proofs.Execution.Locality
import RelScript.Proofs.Execution.Materialization
import RelScript.Proofs.Execution.NestedLoop
import RelScript.Proofs.Execution.Parts
import RelScript.Proofs.Execution.Recut
import RelScript.Proofs.Execution.Renumbering
import RelScript.Proofs.Execution.Rowwise
import RelScript.Proofs.Execution.Safety
import RelScript.Proofs.Execution.SlotFaults
import RelScript.Proofs.Execution.SlotReads
import RelScript.Proofs.Execution.TypedGroups
import RelScript.Proofs.Execution.TypedOperators
import RelScript.Proofs.Execution.TypedValues
import RelScript.Proofs.Ieee.Spacing
import RelScript.Proofs.Ieee.Widening
import RelScript.Proofs.Ieee.WrittenForm
import RelScript.Proofs.Outcome
import RelScript.Proofs.Physical.StageGraph
import RelScript.Proofs.Physical.StageOrder
import RelScript.Proofs.Physical.StageProgress
import RelScript.Proofs.Physical.Stages
import RelScript.Proofs.Physical.Trees
import RelScript.Proofs.Plan.Dependencies
import RelScript.Proofs.Plan.Substitution
import RelScript.Proofs.Plan.Traversal
import RelScript.Proofs.Script.Cycle
import RelScript.Proofs.Script.ScalarAsking
import RelScript.Proofs.Script.ScalarBinding
import RelScript.Proofs.Script.ScalarReplacement
import RelScript.Proofs.Script.Unfolding
import RelScript.Proofs.Session.Batching
import RelScript.Proofs.Session.Crossing
import RelScript.Proofs.Session.Opening
import RelScript.Proofs.Session.Stores
import RelScript.Proofs.SideInput.Lifecycle
import RelScript.Proofs.Storage.Delimited
import RelScript.Proofs.Storage.Reload
import RelScript.Proofs.Text.Lines
import RelScript.Proofs.Text.Readability
import RelScript.Proofs.Unit.Acceptance
import RelScript.Proofs.Unit.Acyclic
import RelScript.Proofs.Unit.Binding
import RelScript.Proofs.Unit.Bookkeeping
import RelScript.Proofs.Unit.Closure
import RelScript.Proofs.Unit.Consistency
import RelScript.Proofs.Unit.Crossing
import RelScript.Proofs.Unit.Deduplication
import RelScript.Proofs.Unit.FailureReasons
import RelScript.Proofs.Unit.Failures
import RelScript.Proofs.Unit.FieldNames
import RelScript.Proofs.Unit.History
import RelScript.Proofs.Unit.InlinedPlans
import RelScript.Proofs.Unit.Isolation
import RelScript.Proofs.Unit.Lookups
import RelScript.Proofs.Unit.Lowering
import RelScript.Proofs.Unit.Numbering
import RelScript.Proofs.Unit.Origins
import RelScript.Proofs.Unit.Readiness
import RelScript.Proofs.Unit.Registry
import RelScript.Proofs.Unit.RegistryIndex
import RelScript.Proofs.Unit.Renumbering
import RelScript.Proofs.Unit.Restriction
import RelScript.Proofs.Unit.Scoping
import RelScript.Proofs.Unit.Settling
import RelScript.Proofs.Unit.Sharing
import RelScript.Proofs.Unit.Simulation
import RelScript.Proofs.Unit.TypeSoundness
import RelScript.Proofs.Unit.UntypedScalars
import RelScript.Proofs.Value.Casting
import RelScript.Proofs.Value.Cells
import RelScript.Proofs.Value.Division
import RelScript.Proofs.Value.UntypedCast
import RelScript.Row
import RelScript.Schema
import RelScript.Script.Basic
import RelScript.Script.Cycle
import RelScript.Script.ScalarBinding
import RelScript.Session
import RelScript.SideInput.Channel
import RelScript.SideInput.Slot
import RelScript.Storage.Catalog
import RelScript.Storage.Table
import RelScript.Text.Blank
import RelScript.Text.Digest
import RelScript.Text.Json
import RelScript.Text.Quoted
import RelScript.Text.Utf8
import RelScript.Text.Visible
import RelScript.Unit.Compile
import RelScript.Unit.Registry
import RelScript.Value.Arithmetic
import RelScript.Value.Cast
import RelScript.Value.Cell
import RelScript.Value.Duration
import RelScript.Value.Order
