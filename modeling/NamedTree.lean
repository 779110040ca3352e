import NamedTree.Main
import NamedTree.Proofs.Tree.RoundTrip
import NamedTree.Proofs.Convert.Levels
import NamedTree.Proofs.Convert.Pruning
import NamedTree.Proofs.Convert.Truncation
import NamedTree.Proofs.Convert.Lossless
import NamedTree.Proofs.Json.Grammar
import NamedTree.Proofs.Json.Spacing
import NamedTree.Proofs.Document.Streaming
import NamedTree.Proofs.Convert.Reports
import NamedTree.Proofs.Convert.ReadBack
import NamedTree.Proofs.Tree.Stable
import NamedTree.Proofs.Convert.Positions
import NamedTree.Proofs.Convert.Loss
import NamedTree.Proofs.FileTree.Places
import NamedTree.Proofs.FileTree.Paths
import NamedTree.Proofs.Discovery.Targets
import NamedTree.Proofs.Command.Filling
import NamedTree.Proofs.Command.Order
import NamedTree.Proofs.Command.Agreement
import NamedTree.Proofs.Tree.Lists
import NamedTree.Proofs.Tree.Edits
import NamedTree.Proofs.Kind.Conservation
import NamedTree.Proofs.Output.Keys
import NamedTree.Proofs.Snippet.Containment
import NamedTree.Proofs.Text.Columns
import NamedTree.Proofs.Text.Labels
import NamedTree.Proofs.Convert.Counting
import NamedTree.Proofs.Convert.Coherence
import NamedTree.Proofs.Discovery.Mirror
import NamedTree.Proofs.Document.Extent
