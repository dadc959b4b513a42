import ShapeLang.Command
import ShapeLang.Main
import ShapeLang.Proofs.NameMap
import ShapeLang.Proofs.Steps
import ShapeLang.Proofs.Effects
import ShapeLang.Proofs.Walk
import ShapeLang.Proofs.Scoping
import ShapeLang.Proofs.Failures
import ShapeLang.Proofs.Strict
import ShapeLang.Proofs.Comparison
import ShapeLang.Proofs.Coherence
import ShapeLang.Proofs.Answers
import ShapeLang.Proofs.Sound
import ShapeLang.Proofs.SoundStatements
import ShapeLang.Proofs.Extent
import ShapeLang.Proofs.Discipline
import ShapeLang.Proofs.Totality
import ShapeLang.Proofs.Verdict
import ShapeLang.Proofs.Hierarchy
import ShapeLang.Proofs.Path
import ShapeLang.Proofs.Accepted
import ShapeLang.Proofs.DefiniteAssignment
import ShapeLang.Proofs.Preorder
import ShapeLang.Proofs.Reached
import ShapeLang.Proofs.Arms
import ShapeLang.Proofs.Growth
import ShapeLang.Proofs.Reconcile
import ShapeLang.Proofs.Returns
import ShapeLang.Proofs.Inferred
import ShapeLang.Proofs.DeclaredReturns
import ShapeLang.Proofs.Stability
import ShapeLang.Proofs.Registration
import ShapeLang.Proofs.Transitivity
import ShapeLang.Proofs.Flow
import ShapeLang.Proofs.Stored
import ShapeLang.Proofs.FlowTyping
import ShapeLang.Proofs.Recheck
import ShapeLang.Proofs.Selection
import ShapeLang.Proofs.Resolution
import ShapeLang.Proofs.Reading
import ShapeLang.Proofs.Spelling
import ShapeLang.Proofs.ReadBack
import ShapeLang.Proofs.RoundTrip
import ShapeLang.Proofs.ClassNames
import ShapeLang.Proofs.Lexemes
import ShapeLang.Proofs.Tiling
import ShapeLang.Proofs.Layout
import ShapeLang.Proofs.Placement
import ShapeLang.Proofs.Pointing
import ShapeLang.Proofs.Tracking
import ShapeLang.Proofs.UpperBound
import ShapeLang.Proofs.Survival
import ShapeLang.Proofs.Constants
import ShapeLang.Proofs.Precedence
import ShapeLang.Proofs.Rescan
import ShapeLang.Proofs.Shown
import ShapeLang.Proofs.ReadShown
import ShapeLang.Proofs.LongestMatch
import ShapeLang.Proofs.Quoting
import ShapeLang.Proofs.Canonical
import ShapeLang.Proofs.Breadth
import ShapeLang.Proofs.TupleSizes
import ShapeLang.Proofs.Atomic
import ShapeLang.Proofs.Carets
import ShapeLang.Proofs.FunctionList
import ShapeLang.Proofs.ClassValues
import ShapeLang.Proofs.Spreading
import ShapeLang.Proofs.Recursion
import ShapeLang.Proofs.Faithful
import ShapeLang.Proofs.Counting
