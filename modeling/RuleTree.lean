import RuleTree.Main
import RuleTree.Program.Version
import RuleTree.Proofs.Atomicity
import RuleTree.Proofs.Block.Decoding
import RuleTree.Proofs.Block.Describing
import RuleTree.Proofs.Block.Drawing
import RuleTree.Proofs.Block.Figure
import RuleTree.Proofs.Block.Formatting
import RuleTree.Proofs.Block.Layout
import RuleTree.Proofs.Block.Parsing
import RuleTree.Proofs.Block.Places
import RuleTree.Proofs.Block.Placement
import RuleTree.Proofs.Block.RoundTrip
import RuleTree.Proofs.Block.Standing
import RuleTree.Proofs.Changes
import RuleTree.Proofs.Creation.Building
import RuleTree.Proofs.Creation.Create
import RuleTree.Proofs.Creation.Nodes
import RuleTree.Proofs.Creation.Objects
import RuleTree.Proofs.Creation.Resemblance
import RuleTree.Proofs.Creation.Sprouts
import RuleTree.Proofs.Creation.Success
import RuleTree.Proofs.Evaluation.Blocks
import RuleTree.Proofs.Evaluation.Created
import RuleTree.Proofs.Evaluation.Direct
import RuleTree.Proofs.Evaluation.Imported
import RuleTree.Proofs.Evaluation.Meaning
import RuleTree.Proofs.Evaluation.Reimported
import RuleTree.Proofs.Evaluation.Renaming
import RuleTree.Proofs.Evaluation.Safety
import RuleTree.Proofs.Evaluation.Simulation
import RuleTree.Proofs.Independence
import RuleTree.Proofs.Integrity
import RuleTree.Proofs.Isolation
import RuleTree.Proofs.Markup.Elements
import RuleTree.Proofs.Markup.Escaping
import RuleTree.Proofs.Number.Bits
import RuleTree.Proofs.Number.FloatText
import RuleTree.Proofs.Number.Literals
import RuleTree.Proofs.Number.Rounding
import RuleTree.Proofs.Number.Shortest
import RuleTree.Proofs.Outcome
import RuleTree.Proofs.Ownership
import RuleTree.Proofs.Program.Execution
import RuleTree.Proofs.Program.Variables
import RuleTree.Proofs.Reachable
import RuleTree.Proofs.Reading.Agreement
import RuleTree.Proofs.Reading.Answers
import RuleTree.Proofs.Reading.Caching
import RuleTree.Proofs.Reading.Cost
import RuleTree.Proofs.Reading.Entering
import RuleTree.Proofs.Reading.Entries
import RuleTree.Proofs.Reading.Fetches
import RuleTree.Proofs.Reading.Interchange
import RuleTree.Proofs.Reading.Loading
import RuleTree.Proofs.Reading.Presence
import RuleTree.Proofs.Reversal
import RuleTree.Proofs.Store.Refusals
import RuleTree.Proofs.Store.Steps
import RuleTree.Proofs.Tree.Building
import RuleTree.Proofs.Tree.Cloning
import RuleTree.Proofs.Tree.Copies
import RuleTree.Proofs.Tree.Deletion
import RuleTree.Proofs.Tree.Dismantling
import RuleTree.Proofs.Tree.Editing
import RuleTree.Proofs.Tree.Frame
import RuleTree.Proofs.Tree.Growth
import RuleTree.Proofs.Tree.Isomorphism
import RuleTree.Proofs.Tree.Linked
import RuleTree.Proofs.Tree.Ownership
import RuleTree.Proofs.Tree.Removal
import RuleTree.Proofs.Tree.Sprouting
import RuleTree.Proofs.Tree.Subtree
import RuleTree.Proofs.Tree.Uprooting
import RuleTree.Tree.Edit
import RuleTree.Wire.Interface
import RuleTree.Wire.Tree
import RuleTree.Proofs.Reading.Indexing
import RuleTree.Proofs.Reading.Failures
import RuleTree.Proofs.Block.Coverage
import RuleTree.Proofs.Block.Images
import RuleTree.Proofs.Block.Acceptance
import RuleTree.Proofs.Creation.Faithful
import RuleTree.Proofs.Creation.Resolution
import RuleTree.Proofs.Function.Extremes
import RuleTree.Proofs.Number.Order
import RuleTree.Proofs.Operator.Power
import RuleTree.Proofs.Reading.Replica
import RuleTree.Proofs.Tree.Hydration
import RuleTree.Proofs.Tree.Moving
import RuleTree.Proofs.Operator.Exactness
import RuleTree.Proofs.Value.Rendering
import RuleTree.Proofs.Wire.RoundTrip
import RuleTree.Proofs.Tree.Enumeration
import RuleTree.Proofs.Store.Numbering
import RuleTree.Proofs.Reading.Transparency
