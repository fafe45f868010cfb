import FpgaPacking.Chain.Trace
import FpgaPacking.Cluster.Check
import FpgaPacking.Config.Load
import FpgaPacking.Diagnostic.Render
import FpgaPacking.Json.Records
import FpgaPacking.Pass
import FpgaPacking.Proofs.Netlist.WellFormed
import FpgaPacking.Proofs.Runs
import FpgaPacking.Proofs.Netlist.Operations
import FpgaPacking.Proofs.Netlist.Changes
import FpgaPacking.Proofs.Netlist.Preservation
import FpgaPacking.Proofs.Structural
import FpgaPacking.Proofs.Reachable
import FpgaPacking.Proofs.Failures
import FpgaPacking.Proofs.Cluster.Building
import FpgaPacking.Proofs.Cluster.Consistent
import FpgaPacking.Proofs.Cluster.Verified
import FpgaPacking.Proofs.Chain.Edited
import FpgaPacking.Proofs.Chain.Origin
import FpgaPacking.Proofs.Chain.Insertion
import FpgaPacking.Proofs.Chain.InsertionRuns
import FpgaPacking.Proofs.Chain.Layout
import FpgaPacking.Proofs.Chain.Segments
import FpgaPacking.Proofs.Chain.Found
import FpgaPacking.Proofs.Chain.Packed
import FpgaPacking.Proofs.Chain.Signals
import FpgaPacking.Proofs.Chain.Legality
import FpgaPacking.Proofs.Chain.Cuts
import FpgaPacking.Proofs.Chain.Greedy
import FpgaPacking.Proofs.Chain.Components
import FpgaPacking.Proofs.Chain.Discovered
import FpgaPacking.Proofs.Logic.Vectors
import FpgaPacking.Proofs.Normalize.Tables
import FpgaPacking.Proofs.Normalize.Refines
import FpgaPacking.Proofs.Normalize.Steps
import FpgaPacking.Proofs.Normalize.Phases
import FpgaPacking.Proofs.Normalize.Weight
import FpgaPacking.Proofs.Normalize.Merging
import FpgaPacking.Proofs.Normalize.Folding
import FpgaPacking.Proofs.Normalize.Pruning
import FpgaPacking.Proofs.Normalize.Flushing
import FpgaPacking.Proofs.Normalize.Rounds
import FpgaPacking.Proofs.Normalize.Logic
import FpgaPacking.Proofs.Normalize.Fixpoint
import FpgaPacking.Proofs.Normalize.DeadLogic
import FpgaPacking.Proofs.Config
import FpgaPacking.Proofs.Netlist.Progress
import FpgaPacking.Proofs.Netlist.Order
import FpgaPacking.Proofs.Cluster.Filling
import FpgaPacking.Proofs.Chain.Course
import FpgaPacking.Proofs.Chain.Complete
import FpgaPacking.Proofs.Chain.Idempotence
import FpgaPacking.Proofs.Chain.Progress
import FpgaPacking.Proofs.Chain.Totality
import FpgaPacking.Proofs.Chain.RoundTrip
import FpgaPacking.Proofs.Chain.Independence
import FpgaPacking.Proofs.Chain.Interleaving
import FpgaPacking.Proofs.Chain.FreshNames
import FpgaPacking.Proofs.Numbering.Independence
import FpgaPacking.Proofs.Retarget.Summary
import FpgaPacking.Proofs.Retarget.Ports
import FpgaPacking.Proofs.Retarget.Atomicity
import FpgaPacking.Proofs.Verdicts
import FpgaPacking.Proofs.Chain.Blocks
import FpgaPacking.Proofs.Chain.Legalized
import FpgaPacking.Proofs.Logic.Built
import FpgaPacking.Proofs.Netlist.Values
import FpgaPacking.Proofs.Faults.Runs
import FpgaPacking.Proofs.Faults.Normalize
import FpgaPacking.Proofs.Faults.Clusters
import FpgaPacking.Proofs.Faults.Chains
import FpgaPacking.Proofs.Faults.Passes
import FpgaPacking.Proofs.Logic.Determined
import FpgaPacking.Proofs.Normalize.ForcedRows
import FpgaPacking.Proofs.Normalize.Cutting
import FpgaPacking.Proofs.Normalize.ConstantInputs
import FpgaPacking.Proofs.Chain.Refused
import FpgaPacking.Proofs.Names
import FpgaPacking.Proofs.Retarget.Naming
import FpgaPacking.Proofs.Retarget.Values
import FpgaPacking.Proofs.Retarget.Notes
import FpgaPacking.Proofs.Retarget.Outcome
import FpgaPacking.Proofs.Retarget.Connectivity
import FpgaPacking.Proofs.Retarget.Copies
import FpgaPacking.Proofs.Chain.AnyNavigation
import FpgaPacking.Proofs.Cluster.Corrupted
import FpgaPacking.Proofs.Netlist.Deletion
import FpgaPacking.Proofs.Netlist.Atomicity
import FpgaPacking.Proofs.Retarget.Batch
import FpgaPacking.Proofs.Logic.Texts
import FpgaPacking.Proofs.Logic.Parameters
import FpgaPacking.Proofs.Accounting
import FpgaPacking.Proofs.Arena.Contents
import FpgaPacking.Proofs.Arena.History
