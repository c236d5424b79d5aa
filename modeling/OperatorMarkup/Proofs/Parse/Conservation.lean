import Mathlib
import OperatorMarkup.Proofs.Parse.Outcome
import OperatorMarkup.Proofs.Tree.Terminals

/-!
# Parsing keeps every token

The leaves of a parsed tree are the operands of its stream in order, each once, and the
groups of the tree have as many places between their operands as the stream has
operators.
-/

namespace OperatorMarkup

open Grouping Operator

variable {lexicon : Lexicon} {source : Source} {tokens : List Token} {root : Node}

theorem operandsOf_elements (tokens : List Token) :
    operandsOf (tokens.map (Token.element lexicon)) = tokens.filter Token.isOperand := by
  induction tokens with
  | nil => rfl
  | cons token tokens ih =>
      cases operand : token.isOperand with
      | true =>
          rw [List.map_cons, element_of_isOperand operand, operandsOf, ih,
            List.filter_cons_of_pos operand]
      | false =>
          rw [List.map_cons, element_of_isOperator operand, operandsOf, ih,
            List.filter_cons_of_neg (by rw [operand]; decide)]

theorem length_operatorsOf_elements (tokens : List Token) :
    (operatorsOf (tokens.map (Token.element lexicon))).length =
      (tokens.filter Token.isOperator).length := by
  induction tokens with
  | nil => rfl
  | cons token tokens ih =>
      cases operator : token.isOperator with
      | true =>
          have notOperand : token.isOperand = false := by
            rw [Token.isOperand, Kind.isOperand, Bool.not_eq_false']
            exact operator
          rw [List.map_cons, element_of_isOperator notOperand, operatorsOf, List.length_cons, ih,
            List.filter_cons_of_pos operator, List.length_cons]
      | false =>
          have operand : token.isOperand = true := by
            rw [Token.isOperand, Kind.isOperand, Bool.not_eq_true']
            exact operator
          rw [List.map_cons, element_of_isOperand operand, operatorsOf, ih,
            List.filter_cons_of_neg (by rw [operator]; decide)]

/-- The leaves of a parsed tree are the operands of its stream in order, each of its
groups has two operands or more, and between those stand as many operators as the
stream has. -/
theorem parse_conserves (parsed : parse lexicon source = .ok root) :
    ∃ tokens : List Token, tokenStream lexicon source = tokens.map .ok ∧
      root.terminals = (tokens.filter Token.isOperand).map Token.terminal ∧
      (∀ node : Node, node.OccursIn root → node.tag?.isSome = true →
        2 ≤ node.children.length) ∧
      root.jointCount = (tokens.filter Token.isOperator).length := by
  obtain ⟨tokens, tree, node, stream_eq, _, groups, rfl⟩ := exists_groups_of_parse parsed
  obtain ⟨terminals_eq, jointCount_eq, branching⟩ :=
    (Node.build_conserves groups.build_eq).settle source ⟨true, true⟩
  refine ⟨tokens, ?_, ?_, fun node occurs => branching.two_le occurs, ?_⟩
  · rw [stream_eq, stream_none]
  · rw [terminals_eq, groups.elements_eq, operandsOf_elements]
  · rw [jointCount_eq, groups.elements_eq, length_operatorsOf_elements]

/-- An equation whose right side goes on in two lines. -/
def equationOfLines : Source :=
  { text := "a = b\n\tc\n\td" }

/-- The tree of the equation, of which the lines are taken into the last operand. -/
def treeOfLines : Node :=
  .group .inline (.single "=") true
    [.leaf "a" ⟨.between 0 2, "", " "⟩,
      .group .block .indented true
        [.leaf "b" ⟨.between 4 5, "", ""⟩,
          .leaf "c" ⟨.between 5 8, "\n\t", ""⟩,
          .leaf "d" ⟨.between 8 11, "\n\t", ""⟩,
          .void ⟨.point 11, "", ""⟩]
        ⟨.between 3 11, " ", ""⟩]
    ⟨.between 0 11, "", ""⟩

theorem parse_conserves_treeOfLines :
    parse .standard equationOfLines = .ok treeOfLines ∧
      treeOfLines.terminals = [.word "a", .word "b", .word "c", .word "d", .void] ∧
      treeOfLines.jointCount = 4 ∧
      ∃ tokens : List Token, tokenStream .standard equationOfLines = tokens.map .ok ∧
        treeOfLines.terminals = (tokens.filter Token.isOperand).map Token.terminal ∧
        (∀ node : Node, node.OccursIn treeOfLines → node.tag?.isSome = true →
          2 ≤ node.children.length) ∧
        treeOfLines.jointCount = (tokens.filter Token.isOperator).length := by
  have parsed : parse .standard equationOfLines = .ok treeOfLines := by cbv
  exact ⟨parsed, rfl, rfl, parse_conserves parsed⟩

end OperatorMarkup
