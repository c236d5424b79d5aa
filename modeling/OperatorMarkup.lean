import OperatorMarkup.Grouping.Table
import OperatorMarkup.Parse
import OperatorMarkup.Tree.Sexp
import OperatorMarkup.Tree.Signature
import OperatorMarkup.Tree.Walk
import OperatorMarkup.Proofs.Grouping.Reading
import OperatorMarkup.Proofs.Grouping.Unique
import OperatorMarkup.Proofs.Grouping.Building
import OperatorMarkup.Proofs.Grouping.Relating
import OperatorMarkup.Proofs.Grouping.Chain
import OperatorMarkup.Proofs.Grouping.Framing
import OperatorMarkup.Proofs.Operator.Order
import OperatorMarkup.Proofs.Operator.Joining
import OperatorMarkup.Proofs.Operator.Nesting
import OperatorMarkup.Proofs.Operator.Split
import OperatorMarkup.Proofs.Operator.Binding
import OperatorMarkup.Proofs.Source
import OperatorMarkup.Proofs.Lexicon
import OperatorMarkup.Proofs.Position
import OperatorMarkup.Proofs.Location.Display
import OperatorMarkup.Proofs.Location.Merge
import OperatorMarkup.Proofs.Gap
import OperatorMarkup.Proofs.Tree.Display
import OperatorMarkup.Proofs.Tree.Outline
import OperatorMarkup.Proofs.Stage
import OperatorMarkup.Proofs.Token.Placement
import OperatorMarkup.Proofs.Token.Indentation
import OperatorMarkup.Proofs.Token.Crossing
import OperatorMarkup.Proofs.Token.Lowering
import OperatorMarkup.Proofs.Token.Reading
import OperatorMarkup.Proofs.Token.FixityChoice
import OperatorMarkup.Proofs.Token.OperatorRuns
import OperatorMarkup.Proofs.Token.Causality
import OperatorMarkup.Proofs.Token.Alternation
import OperatorMarkup.Proofs.Token.Filling
import OperatorMarkup.Proofs.Token.Brackets
import OperatorMarkup.Proofs.Operator.Levels
import OperatorMarkup.Proofs.Operator.Balance
import OperatorMarkup.Proofs.Operator.Likeness
import OperatorMarkup.Proofs.Span
import OperatorMarkup.Proofs.Token.Extent
import OperatorMarkup.Proofs.Token.Stream
import OperatorMarkup.Proofs.Token.Likeness
import OperatorMarkup.Proofs.Token.Lockstep
import OperatorMarkup.Proofs.Token.Agreement
import OperatorMarkup.Proofs.Tree.Build
import OperatorMarkup.Proofs.Parse.Outcome
import OperatorMarkup.Proofs.Parse.Acceptance
import OperatorMarkup.Proofs.Tree.Layout
import OperatorMarkup.Proofs.Tree.Covering
import OperatorMarkup.Proofs.Tree.Whitespace
import OperatorMarkup.Proofs.Parse.RoundTrip
import OperatorMarkup.Proofs.Tree.Terminals
import OperatorMarkup.Proofs.Parse.Conservation
import OperatorMarkup.Proofs.Parse.Infix
import OperatorMarkup.Proofs.Parse.Isolation
import OperatorMarkup.Proofs.Parse.Layout
import OperatorMarkup.Proofs.Token.Run
import OperatorMarkup.Proofs.Token.Spelling
import OperatorMarkup.Proofs.Token.Escapes
import OperatorMarkup.Proofs.Token.Ending
import OperatorMarkup.Proofs.Token.LineEnds
import OperatorMarkup.Proofs.Token.Tiling
import OperatorMarkup.Proofs.Token.Cutting
import OperatorMarkup.Proofs.Parse.Ending
import OperatorMarkup.Proofs.Tree.Edges
import OperatorMarkup.Proofs.Parse.Parts
import OperatorMarkup.Proofs.Grouping.Standing
import OperatorMarkup.Proofs.Grouping.Admission
import OperatorMarkup.Proofs.Operator.Makeup
import OperatorMarkup.Proofs.Token.Breaks
import OperatorMarkup.Proofs.Token.Joints
import OperatorMarkup.Proofs.Token.Gaps
import OperatorMarkup.Proofs.Parse.Formation
import OperatorMarkup.Proofs.Tree.Nodes
import OperatorMarkup.Proofs.Tree.Shapes
import OperatorMarkup.Proofs.Parse.Groups
import OperatorMarkup.Proofs.Parse.Placeholders
import OperatorMarkup.Proofs.Parse.LineBlocks
import OperatorMarkup.Proofs.Parse.IndentedBlocks
import OperatorMarkup.Proofs.Token.Matching
import OperatorMarkup.Proofs.Parse.Matching
import OperatorMarkup.Proofs.Parse.BracketPairs
import OperatorMarkup.Proofs.Tree.Recursion
import OperatorMarkup.Proofs.Parse.Ownership
