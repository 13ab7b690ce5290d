import PassGraph.Clique.Exchange
import PassGraph.Command.Arguments
import PassGraph.Command.Run
import PassGraph.Json.View
import PassGraph.Main
import PassGraph.Proofs.Graph.Edit
import PassGraph.Proofs.Clique.Linked
import PassGraph.Proofs.Hierarchy.Absorb
import PassGraph.Proofs.Hierarchy.Linked
import PassGraph.Proofs.Graph.WellFormed
import PassGraph.Proofs.Graph.Stamps
import PassGraph.Proofs.Graph.Removed
import PassGraph.Proofs.Record.Exact
import PassGraph.Proofs.Record.MadeUp
import PassGraph.Proofs.Record.WellFormed
import PassGraph.Proofs.Reachable
import PassGraph.Proofs.Copy.Frame
import PassGraph.Proofs.Copy.Phases
import PassGraph.Proofs.Copy.Nodes
import PassGraph.Proofs.Copy.Exact
import PassGraph.Proofs.Copy.WellFormed
import PassGraph.Proofs.Copy.Embedding
import PassGraph.Proofs.Clique.Frayed
import PassGraph.Proofs.Graph.Places
import PassGraph.Proofs.Clique.WellFormed
import PassGraph.Proofs.Hierarchy.Dissolve
import PassGraph.Proofs.Hierarchy.Flatten
import PassGraph.Proofs.Clique.Next
import PassGraph.Proofs.Hierarchy.Adopt
import PassGraph.Proofs.Hierarchy.Fold
import PassGraph.Proofs.Hierarchy.Converge
import PassGraph.Proofs.Consistent
import PassGraph.Proofs.Copy.Distinct
import PassGraph.Proofs.Graph.Deep
import PassGraph.Proofs.Copy.Clone
import PassGraph.Proofs.Hierarchy.Unnest
import PassGraph.Proofs.Hierarchy.Flat
import PassGraph.Proofs.Clique.Component
import PassGraph.Proofs.Copy.Carried
import PassGraph.Proofs.Hierarchy.Inside
import PassGraph.Proofs.Hierarchy.Folded
import PassGraph.Proofs.Hierarchy.FoldStep
import PassGraph.Proofs.Hierarchy.Naming
import PassGraph.Proofs.Hierarchy.Names
import PassGraph.Proofs.Hierarchy.Refine
import PassGraph.Proofs.Hierarchy.PassOrder
import PassGraph.Proofs.Compare
import PassGraph.Proofs.Hierarchy.RoundTrip
import PassGraph.Proofs.Json.Lexing
import PassGraph.Proofs.Json.Reading
import PassGraph.Proofs.Record.Text
import PassGraph.Proofs.Graph.Discovery
import PassGraph.Proofs.Record.Build
import PassGraph.Proofs.Record.RoundTrip
import PassGraph.Proofs.Hierarchy.Conserve
import PassGraph.Proofs.Hierarchy.Rewire
import PassGraph.Proofs.Graph.Slots
import PassGraph.Proofs.Copy.Abreast
import PassGraph.Proofs.Hierarchy.Stable
import PassGraph.Proofs.Resolve
import PassGraph.Proofs.Clique.Choice
import PassGraph.Proofs.Likeness
import PassGraph.Proofs.Clique.Exact
import PassGraph.Proofs.Clique.Urgent
import PassGraph.Proofs.Clique.Immediate
import PassGraph.Proofs.Uids.Questions
import PassGraph.Proofs.Uids.Copies
import PassGraph.Proofs.Uids.Edits
import PassGraph.Proofs.Uids.Hierarchy
import PassGraph.Proofs.Uids.Store
import PassGraph.Proofs.Clique.TakenOff
import PassGraph.Proofs.Clique.Replace
import PassGraph.Proofs.Clique.Atomic
import PassGraph.Proofs.Clique.Exchanged
import PassGraph.Proofs.Copy.Strays
import PassGraph.Proofs.Copy.Extracted
import PassGraph.Proofs.Copy.Siblings
import PassGraph.Proofs.Clique.Imported
import PassGraph.Proofs.Clique.Undone
import PassGraph.Proofs.Clique.Itself
import PassGraph.Proofs.Uids.Elementary
import PassGraph.Proofs.Uids.Identify
import PassGraph.Proofs.Queries
import PassGraph.Proofs.Json.Fields
import PassGraph.Proofs.Json.Lexed
import PassGraph.Proofs.Json.Skipping
import PassGraph.Proofs.Json.Skips
import PassGraph.Proofs.Outline
import PassGraph.Proofs.Record.Fields
import PassGraph.Proofs.Record.Respelled
