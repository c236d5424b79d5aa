import Mathlib
import OperatorMarkup.Proofs.Parse.Outcome
import OperatorMarkup.Proofs.Tree.Covering
import OperatorMarkup.Proofs.Tree.Reprint

/-!
# Parsing keeps every character

The tokens of a stream tile the text, so a parsed tree covers all of it, and so
does every node cover its part.
-/

namespace OperatorMarkup

open Grouping

variable {lexicon : Lexicon} {source : Source} {start stop : Nat} {tokens : List Token}
  {root : Node}

/-- The tokens of a stream that tile a text spread over it. -/
theorem Spread.of_tiled (tiled : Extent.Tiled lexicon source start tokens stop) :
    Spread lexicon source start (tokens.map (Token.element lexicon)) stop := by
  have element_cases : ∀ token : Token, (token.element lexicon).span = token.span ∧
      (token.Filled lexicon source → (token.element lexicon).Filled lexicon source) := by
    intro token
    rw [Token.element]
    cases operand : token.isOperand with
    | true => exact ⟨rfl, fun filled => ⟨operand, filled⟩⟩
    | false => exact ⟨rfl, (Extent.filled_of_isOperator operand).mp⟩
  constructor
  · rw [List.map_map]
    have spans_eq : Element.span ∘ Token.element lexicon = Token.span :=
      funext fun token => (element_cases token).1
    rw [spans_eq]
    exact tiled.1
  · intro element member
    obtain ⟨token, tokenMem, rfl⟩ := List.mem_map.mp member
    exact (element_cases token).2 (tiled.2 token tokenMem)

/-- The node of a tree over a stream is laid out over the whole text. -/
theorem Groups.laid {tree : Tree Token Operator} {node : Node}
    (groups : Groups lexicon source tokens tree node)
    (streams : Streams lexicon source tokens none) :
    node.Laid lexicon source ∧ node.span.start = 0 ∧ node.span.stop = source.size := by
  have spread : Spread lexicon source 0 tree.elements source.size := by
    rw [groups.elements_eq]
    exact .of_tiled (streams.tiled rfl)
  have fits : ∀ element ∈ tree.elements, element.Fits lexicon := by
    rw [groups.elements_eq]
    exact elements_fit streams.fits
  exact Node.build_laid groups.ordered fits 0 source.size _ spread groups.build_eq

/-- A tree that was parsed covers the whole text. -/
theorem faithful_of_parse (parsed : parse lexicon source = .ok root) :
    root.Faithful lexicon source ∧ root.span.start = 0 ∧ root.span.stop = source.size := by
  obtain ⟨tokens, tree, node, _, streams, groups, rfl⟩ := exists_groups_of_parse parsed
  obtain ⟨laid, start_eq, stop_eq⟩ := groups.laid streams
  rw [Node.settle_eq_settleRec]
  obtain ⟨handsOn, faithful⟩ := Node.settleRec_settles laid ⟨true, true⟩
  have left := handsOn.left
  have right := handsOn.right
  rw [handsOn.left_eq rfl, start_eq] at left
  rw [handsOn.right_eq rfl, stop_eq] at right
  exact ⟨faithful, left.eq_of_empty.symm, right.eq_of_empty⟩

/-- A parsed tree covers the whole text and prints it back, and the part that each
of its nodes covers is the whitespace that it owns around its body, which its
operands tile. -/
theorem parse_roundTrips (parsed : parse lexicon source = .ok root) :
    root.span = ⟨0, source.size, Nat.zero_le _⟩ ∧
      (∀ node : Node, node.OccursIn root → node.RoundTrips lexicon source) ∧
      root.reprint = source.text := by
  obtain ⟨faithful, start_eq, stop_eq⟩ := faithful_of_parse parsed
  have span_eq : root.span = ⟨0, source.size, Nat.zero_le _⟩ := Span.eq_of_ends start_eq stop_eq
  refine ⟨span_eq, fun node occurs => (faithful.of_occursIn occurs).roundTrips, ?_⟩
  have whole : source.Covers root.span source.text := by
    rw [span_eq]
    exact ⟨.whole source, (Nat.zero_add _).symm⟩
  rw [← faithful.sourceText_eq_reprint]
  exact whole.slice_eq

/-- An equation whose right side goes on in an indented line. -/
def indentedEquation : Source :=
  { text := "a = b\n\t c" }

/-- The tree of the equation, of which the indented part is the last operand. -/
def equationTree : Node :=
  .group .inline (.single "=") true
    [.leaf "a" ⟨⟨0, 2, by decide⟩, "", " "⟩,
      .group .block .indented true
        [.leaf "b" ⟨⟨4, 5, by decide⟩, "", ""⟩,
          .leaf "c" ⟨⟨5, 9, by decide⟩, "\n\t ", ""⟩,
          .void ⟨⟨9, 9, by decide⟩, "", ""⟩]
        ⟨⟨3, 9, by decide⟩, " ", ""⟩]
    ⟨⟨0, 9, by decide⟩, "", ""⟩

theorem parse_roundTrips_equation :
    parse .standard indentedEquation = .ok equationTree ∧
      equationTree.span = ⟨0, indentedEquation.size, Nat.zero_le _⟩ ∧
      (∀ node : Node, node.OccursIn equationTree →
        node.RoundTrips .standard indentedEquation) ∧
      equationTree.reprint = indentedEquation.text := by
  have parsed : parse .standard indentedEquation = .ok equationTree := by cbv
  exact ⟨parsed, parse_roundTrips parsed⟩

end OperatorMarkup
