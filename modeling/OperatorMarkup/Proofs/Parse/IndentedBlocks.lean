import Mathlib
import OperatorMarkup.Proofs.Parse.LineBlocks

/-!
# Indented parts

Every indent of a text is of one group with the dedent behind it, and the node of that group
has one block of its lines.  Neither the head of the part nor the last operand of the head is a
paragraph, since an indent binds tighter than a line end, and the tail is left out for the
dedent.
-/

namespace OperatorMarkup

open Grouping Grouping.Tree Operator

variable {lexicon : Lexicon} {source : Source} {operators : List Operator}
  {operands : List (Tree Token Operator)} {tree : Tree Token Operator} {op indent : Operator}

/-! ## Indents of a sequence -/

/-- Whether an element is the operator of an indent. -/
def Element.isIndent : Element Token Operator → Bool
  | .operand _ => false
  | .operator op => op.token.lexeme == .indent

theorem countP_elementsOf {α ο : Type} (holds : Element α ο → Bool) (operators : List ο)
    (operands : List (Tree α ο)) :
    (elementsOf operators operands).countP holds =
      (operators.map .operator).countP holds +
        (operands.map fun operand => operand.elements.countP holds).sum := by
  induction operands generalizing operators with
  | nil => simp [elementsOf]
  | cons operand operands ih =>
      cases operators with
      | nil =>
          rw [elementsOf, List.countP_append, ih, List.map_cons, List.sum_cons]
          simp
      | cons op operators =>
          rw [elementsOf, List.countP_append, List.countP_cons, ih, List.map_cons, List.map_cons,
            List.countP_cons, List.sum_cons]
          omega

/-- Between its tokens and its final stream a text keeps its indents. -/
theorem Steps.indents_eq (steps : Steps lexicon source) (complete : steps.failure = none) :
    Indentation.indents steps.written = Indentation.indents steps.lowered := by
  have indents_delimiters : ∀ tokens : List Token,
      Indentation.indents (delimiters tokens) = Indentation.indents tokens := by
    intro tokens
    rw [Indentation.indents, Indentation.indents, delimiters, List.countP_filter]
    refine List.countP_congr fun token _ => ?_
    cases token.lexeme <;> simp [Lexeme.isDelimiter]
  rw [← indents_delimiters steps.written, ← indents_delimiters steps.lowered, Steps.written,
    Extent.adjustTokens_delimiters (steps.alternating_fits complete),
    Alternation.emits_delimiters steps.alternates,
    FixityChoice.Decides.delimiters_eq (steps.decidesAll complete)
      fun token member => (steps.lowered_sound token member).fits]

theorem countP_isIndent (tokens : List Token) (fits : ∀ token ∈ tokens, token.Fits lexicon) :
    (tokens.map (Token.element lexicon)).countP Element.isIndent = Indentation.indents tokens := by
  rw [List.countP_map, Indentation.indents]
  refine List.countP_congr fun token member => ?_
  have fits := fits token member
  rw [Function.comp_apply, Token.element]
  split
  · next operand =>
      have plain := fits.isDelimiter_eq_false operand
      cases lexeme_eq : token.lexeme <;> rw [lexeme_eq] at plain <;>
        simp_all [Element.isIndent, Lexeme.isDelimiter]
  · rfl

/-! ## Heads -/

/-- A line end before an indent is looser, so a group starts behind it. -/
theorem order_of_lineEnd (fits : op.Fits lexicon) (indentFits : indent.Fits lexicon)
    (isJoint : op.token.isJoint = true) (level : op.token.Level)
    (tall : 0 < op.token.gapHeight) (indent_eq : indent.token.lexeme = .indent) :
    order op indent = .ok .right := by
  have joins := fits.joins_of_isJoint isJoint
  have left_eq : indent.left = ⟨indentText, .indentHead, .left, .never⟩ := by
    rw [indentFits.eq]
    simp [ofToken, faces, indent_eq]
  have looser : op.left.priority < Priority.indentHead := by
    rw [priority_of_tall fits isJoint level tall, lineBreakPriority]
    split <;> decide
  rw [order, joins.right_eq, left_eq]
  simp [Face.accepts, joins.merge_eq, Merge.isRequired, Priority.lt_asymm looser, looser]

namespace Node

variable {node inner head body tail first : Node} {parts : List Node} {span : Span}

/-- No paragraph ends before an indent. -/
theorem isBlock_of_endsBefore (every : tree.Every (Formed lexicon source))
    (build_eq : tree.build (nodeGrammar source) = .ok node)
    (endsBefore : tree.EndsBefore order indent) (indentFits : indent.Fits lexicon)
    (indent_eq : indent.token.lexeme = .indent) : node.isBlock .paragraph = false := by
  refine Bool.eq_false_iff.mpr fun isBlock => ?_
  have isJoined := isJoined_of_isBlock (by simp) isBlock
  cases tree with
  | leaf token =>
      obtain rfl := Except.ok.inj build_eq
      rw [isJoined_ofToken] at isJoined
      contradiction
  | group operators operands =>
      obtain ⟨parts, -, node_eq⟩ := Except.bind_eq_ok_iff.mp build_eq
      have formed := (every_group_iff.mp every).1
      obtain ⟨-, joints⟩ := (formed.shaped node_eq).joined isJoined
      obtain ⟨front, last, rfl⟩ : ∃ front last, operators = front ++ [last] :=
        ⟨_, _, (List.dropLast_concat_getLast formed.ordered.nonempty).symm⟩
      have ends := endsBefore _ List.mem_cons_self last (by simp)
      have joined := joints last (by simp)
      have starts := order_of_lineEnd (formed.fits last (by simp)) indentFits joined.isJoint
        (formed.level last (by simp)) (by rw [joined.line isBlock]; exact Nat.one_pos) indent_eq
      rw [starts] at ends
      cases Except.ok.inj ends

/-- The first line of an indented part is no paragraph. -/
theorem FirstLine.isBlock_eq_false (firstLine : FirstLine head first)
    (every : tree.Every (Formed lexicon source))
    (build_eq : tree.build (nodeGrammar source) = .ok head)
    (endsBefore : tree.EndsBefore order indent) (indentFits : indent.Fits lexicon)
    (indent_eq : indent.token.lexeme = .indent) : first.isBlock .paragraph = false := by
  cases firstLine with
  | head => exact isBlock_of_endsBefore every build_eq endsBefore indentFits indent_eq
  | @last tag wide before _ place named head_eq =>
      cases tree with
      | leaf token =>
          obtain rfl := Except.ok.inj build_eq
          have none := children_ofToken source token
          rw [head_eq] at none
          simp [children] at none
      | group operators operands =>
          obtain ⟨formed, within⟩ := every_group_iff.mp every
          obtain ⟨parts, built, node_eq⟩ := exists_built build_eq
          rcases (formed.shaped node_eq).children_or_indented with
            ⟨children_eq, -, -⟩ | ⟨_, _, inner, body, tail, span, _, _, _, _, block_eq⟩
          · rw [head_eq] at children_eq
            obtain rfl : before ++ [first] = parts := children_eq
            obtain ⟨front, lasts, rfl, -, lastBuilt⟩ := exists_of_forall₂_append built.flip
            obtain ⟨operand, none, last_eq, noneBuilt, rfl⟩ :=
              List.forall₂_cons_left_iff.mp lastBuilt
            obtain rfl := List.forall₂_nil_left_iff.mp noneBuilt
            refine isBlock_of_endsBefore (within operand (by simp)) last_eq (fun spine member => ?_)
              indentFits indent_eq
            apply endsBefore spine
            rw [rightSpine, rightSpineOf_append]
            exact List.mem_cons_of_mem _ member
          · -- The last operand of a head that is an indented part itself is the block there.
            rw [head_eq] at block_eq
            rcases indentBlock_cases operators span inner body tail with
              line_eq | ⟨_, _, _, _, _, _, _, split_eq⟩
            · rw [line_eq] at block_eq
              cases block_eq
            · rw [split_eq] at block_eq
              cases (List.append_inj_right' (congrArg children block_eq) rfl)
              rfl

/-! ## Bodies and tails -/

theorem bodyLines_eq (body : Node) :
    bodyLines body = if body.isBlock .paragraph then body.children else [body] := by
  cases body with
  | group form tag wide lines place =>
      cases form with
      | inline => rfl
      | block => simp [bodyLines, isBlock, children]
  | _ => rfl

/-- The lines of a body are no paragraphs, and there is one at least. -/
theorem isBlock_bodyLines (every : tree.Every (Formed lexicon source))
    (build_eq : tree.build (nodeGrammar source) = .ok body) :
    bodyLines body ≠ [] ∧ ∀ line ∈ bodyLines body, line.isBlock .paragraph = false := by
  rw [bodyLines_eq]
  cases isBlock : body.isBlock .paragraph with
  | false => exact ⟨nofun, List.forall_mem_singleton.mpr isBlock⟩
  | true =>
      obtain ⟨operators, operands, joins⟩ := exists_joinsParts every build_eq body
        (mem_nodes_self body) (isJoined_of_isBlock (by simp) isBlock)
      rw [if_pos rfl]
      constructor
      · intro none
        have length_eq := joins.built.length_eq
        rw [none, joins.formed.ordered.arity] at length_eq
        contradiction
      · intro line member
        refine Bool.eq_false_iff.mpr fun lineIsBlock => ?_
        exact Priority.lt_irrefl _
          (joins.lt_of_isBlock member (by simp) (by simp) isBlock lineIsBlock)

/-- An indented block has a head or what is in place of it, lines, and a tail that is left out,
none of which is a paragraph. -/
structure IsIndentedPart (node : Node) : Prop where
  enough : 3 ≤ node.children.length
  tail : node.children.getLast?.map isVoid = some true
  lines : ∀ child ∈ node.children, child.isBlock .paragraph = false

/-- The block of the lines of an indented part is as it should be. -/
theorem isIndentedPart_lines {indent dedent : Operator}
    (formed : Formed lexicon source [indent, dedent] operands)
    (within : ∀ operand ∈ operands, operand.Every (Formed lexicon source))
    (indent_eq : indent.token.lexeme = .indent) (dedent_eq : dedent.token.lexeme = .dedent)
    (built : List.Forall₂ (fun operand part => operand.build (nodeGrammar source) = .ok part)
      operands [head, body, tail]) (firstLine : FirstLine head first) (span : Span) :
    (block .indented (first :: bodyLines body ++ [tail]) span).IsIndentedPart := by
  obtain ⟨headTree, bodyTree, tailTree, rfl, head_eq, body_eq, tail_eq⟩ :=
    exists_of_forall₂_triple built.flip
  have trails : dedent.token.kind = .operator .suffixOp :=
    (formed.fits dedent (by simp)).token.allows dedent_eq
  obtain ⟨token, last_eq, kind_eq⟩ := formed.trails dedent rfl trails
  obtain rfl : tailTree = .leaf token := Option.some.inj last_eq
  obtain rfl := Except.ok.inj tail_eq
  obtain _ | ⟨_, _, _, _, ends, _⟩ := formed.ordered
  have firstPlain := firstLine.isBlock_eq_false (within headTree (by simp)) head_eq
    (ends (headTree, indent) (by simp)) (formed.fits indent (by simp)) indent_eq
  obtain ⟨nonempty, linesPlain⟩ := isBlock_bodyLines (within bodyTree (by simp)) body_eq
  constructor
  · have := List.length_pos_iff.mpr nonempty
    simp only [block, children, List.length_append, List.length_cons, List.length_nil]
    omega
  · rw [block, children, List.getLast?_concat, Option.map_some, isVoid_ofToken, kind_eq]
    rfl
  · intro child member
    simp only [block, children, List.mem_append, List.mem_cons, List.not_mem_nil, or_false]
      at member
    rcases member with (rfl | line) | rfl
    · exact firstPlain
    · exact linesPlain child line
    · rw [ofToken, kind_eq]
      rfl

/-- Every block of an indented part that occurs in a tree is as it should be. -/
theorem isIndentedPart_of_build (every : tree.Every (Formed lexicon source))
    (build_eq : tree.build (nodeGrammar source) = .ok node) :
    ∀ inner ∈ node.nodes, inner.isBlock .indented = true → inner.IsIndentedPart := by
  refine forall_nodes_of_build ?_ ?_ ?_ ?_ every build_eq
  · intro token isBlock
    rw [ofToken] at isBlock
    split at isBlock <;> contradiction
  · intro operators operands inner _ _ _ _ plain isBlock
    rw [plain] at isBlock
    contradiction
  · intro indent dedent operands head body tail first span formed within indent_eq dedent_eq built
      firstLine _
    exact isIndentedPart_lines formed within indent_eq dedent_eq built firstLine span
  · intros
    contradiction

/-! ## Counting -/

theorem countP_bodyLines (body : Node) :
    ((bodyLines body).flatMap nodes).countP (isBlock .indented) =
      body.nodes.countP (isBlock .indented) := by
  rw [List.countP_eq_length_filter, List.countP_eq_length_filter]
  refine congrArg List.length (filter_nodes_bodyLines fun isParagraph => ?_)
  exact isBlock_eq_false_of_isBlock isParagraph (by decide)

/-- An indented part has one block more than its three operands. -/
theorem countP_indentBlock :
    (indentBlock operators span head body tail).nodes.countP (isBlock .indented) =
      1 + head.nodes.countP (isBlock .indented) + body.nodes.countP (isBlock .indented) +
        tail.nodes.countP (isBlock .indented) := by
  have lines : ∀ (first : Node) (span : Span),
      (block .indented (first :: bodyLines body ++ [tail]) span).nodes.countP (isBlock .indented) =
        1 + first.nodes.countP (isBlock .indented) + body.nodes.countP (isBlock .indented) +
          tail.nodes.countP (isBlock .indented) := by
    intro first span
    rw [nodes_block, List.countP_cons_of_pos rfl, List.cons_append, List.flatMap_cons,
      List.flatMap_append, List.flatMap_singleton, List.countP_append, List.countP_append,
      countP_bodyLines]
    omega
  rcases indentBlock_cases operators span head body tail with
    block_eq | ⟨tag, wide, before, last, place, -, rfl, block_eq⟩
  · rw [block_eq, lines]
  · have inline : ∀ (children : List Node) (place : Place),
        (group .inline tag wide children place).nodes.countP (isBlock .indented) =
          (children.flatMap nodes).countP (isBlock .indented) := by
      intro children place
      rw [nodes_eq, List.countP_cons_of_neg (by simp [isBlock])]
      rfl
    rw [block_eq, inline, inline, List.flatMap_append, List.flatMap_append,
      List.flatMap_singleton, List.flatMap_singleton, List.countP_append, List.countP_append, lines]
    omega

/-- A tree is built into as many blocks of indented parts as it has indents. -/
theorem countP_build (every : tree.Every (Formed lexicon source))
    (build_eq : tree.build (nodeGrammar source) = .ok node) :
    node.nodes.countP (isBlock .indented) = tree.elements.countP Element.isIndent := by
  refine build_every_induction (motive := fun tree node =>
    node.nodes.countP (isBlock .indented) = tree.elements.countP Element.isIndent) ?_ ?_ every
      build_eq
  · intro token
    rw [ofToken]
    split <;> rfl
  · intro operators operands parts node formed built ih node_eq
    have sums := congrArg List.sum (map_eq_of_forall₂ ih.flip)
    rw [elements_group, countP_elementsOf, ← sums]
    rcases (formed.shaped node_eq).children_or_indented with
      ⟨children_eq, plain, others⟩ |
        ⟨_, _, head, body, tail, span, rfl, indent_eq, dedent_eq, rfl, rfl⟩
    · have none : (operators.map Element.operator).countP Element.isIndent = 0 := by
        rw [List.countP_map]
        refine List.countP_eq_zero.mpr fun op member => ?_
        simpa [Element.isIndent] using others op member
      rw [nodes_eq, List.countP_cons_of_neg (by simp [plain]), children_eq, List.countP_flatMap,
        none, Nat.zero_add]
      rfl
    · rw [countP_indentBlock]
      simp [Element.isIndent, indent_eq, dedent_eq]
      omega

end Node

open Node

variable {root : Node}

/-- A parsed tree has one indented block for each indent of the text.  The block has a head or
what is in place of it, lines, and a tail that is left out, and no paragraph among these. -/
theorem parse_indentedBlocks (parsed : parse lexicon source = .ok root) :
    ∃ lowered : List Token, loweredStream lexicon source = lowered.map .ok ∧
      (root.preorder.map Prod.snd).countP (isBlock .indented) = Indentation.indents lowered ∧
      ∀ node : Node, node.OccursIn root → node.isBlock .indented = true →
        3 ≤ node.children.length ∧ node.children.getLast?.map isVoid = some true ∧
          ∀ child ∈ node.children, child.isBlock .paragraph = false := by
  obtain ⟨origin⟩ := exists_origin parsed
  have complete := origin.complete
  refine ⟨origin.steps.lowered, ?_, ?_, fun node occurs isBlock => ?_⟩
  · rw [origin.steps.loweredStream_eq, origin.steps.readFailure_eq_none complete, stream_none]
  · have views := map_eq_of_settledFrom (isBlock_settleRec .indented) origin.settledFrom.nodes
    have settled := congrArg (List.countP id) views
    rw [List.countP_map, List.countP_map, Function.id_comp] at settled
    rw [map_snd_preorder, settled, countP_build origin.formed origin.groups.build_eq,
      origin.groups.elements_eq, countP_isIndent _ origin.streams.fits,
      origin.steps.indents_eq complete]
  · obtain ⟨built, builtMember, settled⟩ :=
      origin.exists_settledFrom (mem_nodes_iff.mpr occurs)
    have builtIsBlock : built.isBlock .indented = true := by
      obtain ⟨owns, rfl⟩ := settled
      rwa [isBlock_settleRec] at isBlock
    obtain ⟨enough, tail, lines⟩ := isIndentedPart_of_build origin.formed origin.groups.build_eq
      built builtMember builtIsBlock
    refine ⟨settled.children.length_eq ▸ enough, ?_, fun child member => ?_⟩
    · rw [← List.getLast?_map, map_eq_of_settledFrom isVoid_settleRec settled.children,
        List.getLast?_map, tail]
    · obtain ⟨part, partMember, owns, rfl⟩ :=
        exists_of_mem_forall₂ settled.children.flip member
      rw [isBlock_settleRec]
      exact lines part partMember

/-- A line with two indented lines, and a line behind them. -/
def partedText : Source :=
  { text := "a\n\tb\n\tc\nd" }

/-- The tree of the lines, of which the first one holds the indented ones. -/
def partedTree : Node :=
  .group .block .paragraph true
    [.group .block .indented true
      [.leaf "a" ⟨.between 0 1, "", ""⟩,
        .leaf "b" ⟨.between 1 4, "\n\t", ""⟩,
        .leaf "c" ⟨.between 4 7, "\n\t", ""⟩,
        .void ⟨.point 7, "", ""⟩]
      ⟨.between 0 7, "", ""⟩,
      .leaf "d" ⟨.between 7 9, "\n", ""⟩]
    ⟨.between 0 9, "", ""⟩

theorem parse_indentedBlocks_partedTree :
    parse .standard partedText = .ok partedTree ∧
      ∃ lowered : List Token, loweredStream .standard partedText = lowered.map .ok ∧
        (partedTree.preorder.map Prod.snd).countP (isBlock .indented) =
          Indentation.indents lowered ∧
        ∀ node : Node, node.OccursIn partedTree → node.isBlock .indented = true →
          3 ≤ node.children.length ∧ node.children.getLast?.map isVoid = some true ∧
            ∀ child ∈ node.children, child.isBlock .paragraph = false := by
  have parsed : parse .standard partedText = .ok partedTree := by cbv
  exact ⟨parsed, parse_indentedBlocks parsed⟩

end OperatorMarkup
