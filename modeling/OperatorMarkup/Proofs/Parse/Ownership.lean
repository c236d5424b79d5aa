import OperatorMarkup.Proofs.Parse.RoundTrip
import OperatorMarkup.Proofs.Tree.Outline
import OperatorMarkup.Proofs.Tree.Recursion

/-!
# Whatever the root owns

The whitespace of a grouped tree can be settled with any edges of its root owned.  What the
edges hand on stands around the text that is left, and nothing below the root depends on which
of the edges are owned.
-/

namespace OperatorMarkup

variable {lexicon : Lexicon} {source : Source} {tree : Node}

/-- A tree whose whitespace is settled is still the tree, and what its edges hand on stands
around it in the text that the tree had.  An edge that owns whitespace hands on none. -/
structure Apportions (source : Source) (tree : Node) (owns : Ownership) (settled : Settled) :
    Prop where
  text_eq : settled.left ++ settled.node.sourceText source ++ settled.right =
    tree.sourceText source
  left_eq : owns.left = true → settled.left = ""
  right_eq : owns.right = true → settled.right = ""
  outline_eq : settled.node.outline true = tree.outline true

namespace Node

/-- Settling a tree that covers a source apportions its text. -/
theorem Laid.apportions (laid : tree.Laid lexicon source) (owns : Ownership) :
    Apportions source tree owns (tree.settle source owns) := by
  have outline_eq := @outline_settle true source tree owns
  rw [settle_eq_settleRec] at outline_eq ⊢
  rcases settleRec_settles laid owns with ⟨handsOn, faithful⟩
  have covers := faithful.covers_reprint
  -- What is handed on frames what is left, as the whitespace of a place frames a text.
  have frames : Frames lexicon source
      ⟨tree.span, (settleRec source tree owns).left, (settleRec source tree owns).right⟩
      (settleRec source tree owns).node.span.start
      (settleRec source tree owns).node.span.stop :=
    ⟨handsOn.left, handsOn.right, Span.start_le_stop _⟩
  constructor
  · rw [faithful.sourceText_eq_reprint]
    exact (frames.covers covers.holds covers.stop_eq).slice_eq.symm
  · exact handsOn.left_eq
  · exact handsOn.right_eq
  · exact outline_eq

end Node

/-- A tree that a text is grouped to keeps its text and its outline, whatever edges its root
owns.  The nodes below the root are the same for all of them, and a root that owns both edges
keeps what a root that owns none hands on. -/
theorem groupedTree_apportions (grouped : groupedTree lexicon source = .ok tree) :
    (∀ owns, Apportions source tree owns (tree.settle source owns)) ∧
      (∀ owns other, (tree.settle source owns).node.children =
        (tree.settle source other).node.children) ∧
      (tree.settle source ⟨true, true⟩).node.place.left =
        (tree.settle source ⟨false, false⟩).left ∧
      (tree.settle source ⟨true, true⟩).node.place.right =
        (tree.settle source ⟨false, false⟩).right := by
  rcases exists_groups_of_groupedTree grouped with ⟨tokens, ordered, _, streams, groups⟩
  have laid := (groups.laid streams).1
  constructor
  · exact laid.apportions
  · constructor
    · intro owns other
      rw [Node.children_settle, Node.children_settle]
    · rw [Node.settle_eq tree ⟨true, true⟩, Node.settle_eq tree ⟨false, false⟩]
      simp [Ownership.settleNode, Ownership.settle, Ownership.handedOn]

/-- A bracket and a word with whitespace on either side. -/
def paddedArgument : Source :=
  { text := " [x] y~\n" }

/-- The tree of the bracket and the word, with the whitespace around them at its leaves. -/
def paddedTree : Node :=
  .group .inline .empty true
    [.group .inline (.pair "[" "]") true
        [.void ⟨.between 0 1, "", ""⟩, .leaf "x" ⟨.between 2 3, "", ""⟩,
          .void ⟨.point 4, "", ""⟩]
        ⟨.between 0 4, "", ""⟩,
      .leaf "y" ⟨.between 4 8, " ", "~\n"⟩]
    ⟨.between 0 8, "", ""⟩

theorem groupedTree_apportions_paddedTree :
    groupedTree .standard paddedArgument = .ok paddedTree ∧
      (∀ owns, Apportions paddedArgument paddedTree owns (paddedTree.settle paddedArgument owns)) ∧
      (∀ owns other, (paddedTree.settle paddedArgument owns).node.children =
        (paddedTree.settle paddedArgument other).node.children) ∧
      (paddedTree.settle paddedArgument ⟨true, true⟩).node.place.left =
        (paddedTree.settle paddedArgument ⟨false, false⟩).left ∧
      (paddedTree.settle paddedArgument ⟨true, true⟩).node.place.right =
        (paddedTree.settle paddedArgument ⟨false, false⟩).right := by
  have grouped : groupedTree .standard paddedArgument = .ok paddedTree := by cbv
  exact ⟨grouped, groupedTree_apportions grouped⟩

end OperatorMarkup
