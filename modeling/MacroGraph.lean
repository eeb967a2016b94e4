import MacroGraph.Source
import MacroGraph.Session
import MacroGraph.Main
import MacroGraph.Text.Lines
import MacroGraph.Proofs.Engine.Cancellation
import MacroGraph.Proofs.Engine.Activation
import MacroGraph.Proofs.Hotkey
import MacroGraph.Proofs.Evaluation.Ending
import MacroGraph.Proofs.Pruning
import MacroGraph.Proofs.Controller.Serving
import MacroGraph.Proofs.Controller.Exclusion
import MacroGraph.Proofs.Controller.Stopping
import MacroGraph.Proofs.Engine.Depth
import MacroGraph.Proofs.Engine.Failing
import MacroGraph.Proofs.Engine.Onward
import MacroGraph.Proofs.Engine.WhileLoop
import MacroGraph.Proofs.Engine.Revisiting
import MacroGraph.Proofs.Rerooting
import MacroGraph.Proofs.Evaluation.Kinds
import MacroGraph.Proofs.Engine.Completion
import MacroGraph.Proofs.Number.Rounding
import MacroGraph.Proofs.Duration
import MacroGraph.Proofs.Engine.Spans
import MacroGraph.Proofs.Engine.Footing
import MacroGraph.Proofs.Engine.Waiting
import MacroGraph.Proofs.Engine.Repetition
import MacroGraph.Proofs.Controller.Toggling
import MacroGraph.Proofs.Controller.Results
import MacroGraph.Proofs.Document.Lookup
import MacroGraph.Proofs.Evaluation.Locality
import MacroGraph.Proofs.Engine.Shape
import MacroGraph.Proofs.Engine.BoundedLoop
import MacroGraph.Proofs.Compile.Skipping
import MacroGraph.Proofs.Document.Violation
import MacroGraph.Proofs.Engine.Slicing
import MacroGraph.Proofs.Engine.Delaying
import MacroGraph.Proofs.Hotkey.Bound
import MacroGraph.Proofs.KeyDescriptor
import MacroGraph.Proofs.Hotkey.Rooted
import MacroGraph.Proofs.Compile.Mapping
import MacroGraph.Proofs.Definition
import MacroGraph.Proofs.Value
