import OperatorMarkup.Proofs.Operator.Binding
import OperatorMarkup.Proofs.Parse.Outcome
import OperatorMarkup.Tree.Sexp

/-!
# Texts of infix operators

Where every operator of a text stands between two operands, the tokens of the text are a
chain, and its tree is the split of that chain from the loosest operators down.
-/

namespace OperatorMarkup

open Grouping Operator

variable {lexicon : Lexicon} {source : Source} {tokens : List Token}

/-- A text whose operators are all infix is parsed into the node of the split of its chain. -/
theorem parse_infix (stream_eq : tokenStream lexicon source = tokens.map .ok)
    (between : ∀ token ∈ tokens, token.isOperand = false → token.IsInfix) :
    ∃ (chain : Chain Token Operator) (node : Node),
      chain.elements = tokens.map (Token.element lexicon) ∧
        (splitTree chain).build (Node.nodeGrammar source) = .ok node ∧
        parse lexicon source = .ok (node.settle source ⟨true, true⟩).node := by
  rw [← stream_none] at stream_eq
  have streams := streams_of_eq stream_eq
  obtain ⟨after, turns, balanced⟩ := streams.turns
  obtain rfl := balanced rfl
  have infixed : ∀ op, .operator op ∈ tokens.map (Token.element lexicon) →
      ∃ token : Token, token.IsInfix ∧ ofToken lexicon token = op := by
    intro op member
    obtain ⟨token, tokenMem, element_eq⟩ := List.mem_map.mp member
    exact ⟨token, between token tokenMem (isOperator_of_element_eq element_eq),
      (eq_of_element_eq_operator element_eq).symm⟩
  obtain ⟨chain, elements_eq, group_eq⟩ :=
    group_of_alternates lexicon (alternates_of_turns turns) infixed
  have agree := @group_nodes lexicon source tokens streams.fits
  rw [group_eq] at agree
  obtain ⟨node, node_eq, build_eq⟩ := Except.agree_ok_iff.mp agree
  refine ⟨chain, node, elements_eq, build_eq, ?_⟩
  rw [parse, groupedTree_eq stream_eq, node_eq]
  rfl

/-- Operators without space around them bind tighter, and of two others the first one has the
rest on its right. -/
example : (parse .standard ⟨"a + b*c - d", none, 0⟩).map Node.sexp =
    .ok "(+ a (- (* b c) d))" := by
  cbv

end OperatorMarkup
