import Dataflow.Main
import Dataflow.Timing
import Dataflow.Proofs.Catalog.Consistent
import Dataflow.Proofs.Evaluation.Errors
import Dataflow.Proofs.Evaluation.Growth
import Dataflow.Proofs.Evaluation.Order
import Dataflow.Proofs.Evaluation.Renumbering
import Dataflow.Proofs.Evaluation.Selection
import Dataflow.Proofs.Evaluation.Validated
import Dataflow.Proofs.Evaluation.Walk
import Dataflow.Proofs.Evaluation.Wrapping
import Dataflow.Proofs.Action.Acceptance
import Dataflow.Proofs.Evaluation.Direct
import Dataflow.Proofs.Builder.Faults
import Dataflow.Proofs.Evaluation.Tracing
import Dataflow.Proofs.Catalog.InsertOnce
import Dataflow.Proofs.Program
import Dataflow.Proofs.Builder.Sites
import Dataflow.Proofs.Evaluation.Returned
import Dataflow.Proofs.Evaluation.Builtin
import Dataflow.Proofs.Arithmetic
import Dataflow.Proofs.Program.EngineKey
import Dataflow.Proofs.CommandLine.Input
import Dataflow.Proofs.Evaluation.Handover
import Dataflow.Proofs.Builder.Addresses
import Dataflow.Proofs.Evaluation.IntegerEngines
