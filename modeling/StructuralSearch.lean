import StructuralSearch.Main
import StructuralSearch.Tree.Builder
import StructuralSearch.Proofs.Matching.Outcomes
import StructuralSearch.Proofs.Matching.Refinement
import StructuralSearch.Proofs.Matching.Derivation
import StructuralSearch.Proofs.Text.Boundaries
import StructuralSearch.Proofs.Replacing.Splice
import StructuralSearch.Proofs.Template.Instance
import StructuralSearch.Proofs.Source.Order
import StructuralSearch.Proofs.Source.Nesting
import StructuralSearch.Proofs.Search.Exact
import StructuralSearch.Proofs.Replacing.Outermost
import StructuralSearch.Proofs.Replacing.References
import StructuralSearch.Proofs.Template.SelfMatch
import StructuralSearch.Proofs.Matching.Ending
import StructuralSearch.Proofs.Matching.GoingBack
import StructuralSearch.Proofs.Tree.OfTree
import StructuralSearch.Proofs.Matching.Adapters
import StructuralSearch.Proofs.Tree.Ways
import StructuralSearch.Proofs.CommandLine.InPlace
import StructuralSearch.Proofs.Template.Pieces
import StructuralSearch.Proofs.Matching.Comparisons
import StructuralSearch.Proofs.Matching.BoundNames
import StructuralSearch.Proofs.Tree.PreOrder
import StructuralSearch.Proofs.Matching.DocumentOrder
import StructuralSearch.Proofs.Matching.Preference
import StructuralSearch.Proofs.Template.Checking
import StructuralSearch.Proofs.Template.LongerRuns
import StructuralSearch.Proofs.Template.Roles
import StructuralSearch.Proofs.Replacing.Substitution
import StructuralSearch.Proofs.Matching.SameTrees
import StructuralSearch.Proofs.Source.Layout
import StructuralSearch.Proofs.Source.Faults
import StructuralSearch.Proofs.Tree.Comparison
import StructuralSearch.Proofs.Matching.Positions
import StructuralSearch.Proofs.CommandLine.Grep
