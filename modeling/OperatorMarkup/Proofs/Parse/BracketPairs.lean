import Mathlib
import OperatorMarkup.Proofs.Parse.Matching

/-!
# Bracket pairs

The groups of brackets in a parsed tree are those of the matched brackets of the text, one for
each.  Such a group holds what is between its brackets and nothing else, but for the indented
part that it is the head of.
-/

namespace OperatorMarkup

open Grouping Grouping.Tree Operator

variable {lexicon : Lexicon} {source : Source} {operators : List Operator}
  {operands : List (Tree Token Operator)} {tree : Tree Token Operator} {pair : BracketPair}

namespace Node

/-- Whether a node is a group of brackets. -/
def isPair : Node → Bool
  | group .inline (.pair _ _) _ _ _ => true
  | _ => false

/-- The groups of brackets in a tree. -/
def pairNodes (node : Node) : List Node :=
  node.nodes.filter isPair

/-- A node is the group of a bracket pair.  An operand is left out before the opening bracket,
and one behind the closing bracket unless the indented part is there that the pair is the head
of; the operand between them fills the range from the one to the other. -/
inductive EnclosesPair (pair : BracketPair) : Node → Prop
  | intro {wide : Bool} {left inner right : Node} {place : Place} (left_isVoid : left.isVoid = true)
      (left_stop : left.span.stop = pair.opener.span.start)
      (inner_start : inner.span.start = pair.opener.span.stop)
      (inner_stop : inner.span.stop = pair.closer.span.start)
      (right_is : if pair.headed then right.isBlock .indented = true else right.isVoid = true) :
      EnclosesPair pair (.group .inline (.pair pair.opener.text pair.closer.text) wide
        [left, inner, right] place)

variable {node head body tail : Node} {parts : List Node} {span : Span}

/-! ## Settled pairs -/

theorem HandsOn.ends_eq {owns : Ownership} {settled : Settled}
    (handsOn : HandsOn lexicon source owns span settled) :
    (owns.left = true → settled.node.span.start = span.start) ∧
      (owns.right = true → settled.node.span.stop = span.stop) := by
  constructor
  · intro owned
    have margin := handsOn.left
    rw [handsOn.left_eq owned] at margin
    exact margin.eq_of_empty.symm
  · intro owned
    have margin := handsOn.right
    rw [handsOn.right_eq owned] at margin
    exact margin.eq_of_empty

/-- Between its brackets the group of a pair keeps its whitespace. -/
theorem EnclosesPair.settled {settled : Node} (encloses : EnclosesPair pair node)
    (laid : Laid lexicon source node) (settles : SettledFrom source settled node) :
    EnclosesPair pair settled := by
  obtain ⟨owns, rfl⟩ := settles
  cases encloses with
  | @intro wide left inner right place left_isVoid left_stop inner_start inner_stop right_is =>
      cases laid with
      | group _ within =>
          simp only [List.forall_mem_cons] at within
          obtain ⟨leftLaid, innerLaid, -⟩ := within
          have leftEnds := (settleRec_settles leftLaid ⟨false, true⟩).1.ends_eq
          have innerEnds := (settleRec_settles innerLaid ⟨true, true⟩).1.ends_eq
          refine EnclosesPair.intro ?_ ((leftEnds.2 rfl).trans left_stop)
            ((innerEnds.1 rfl).trans inner_start) ((innerEnds.2 rfl).trans inner_stop) ?_
          · rwa [isVoid_settleRec]
          · rwa [isVoid_settleRec, isBlock_settleRec]

theorem isPair_settleRec (node : Node) (owns : Ownership) :
    (settleRec source node owns).node.isPair = node.isPair := by
  cases node with
  | group form tag => cases form <;> cases tag <;> rfl
  | _ => rfl

theorem Laid.of_mem_nodes (laid : Laid lexicon source node) :
    ∀ inner ∈ node.nodes, Laid lexicon source inner := by
  induction laid with
  | void blank covers => simpa [nodes] using Laid.void blank covers
  | nullary fills => simpa [nodes] using Laid.nullary fills
  | leaf fills => simpa [nodes] using Laid.leaf fills
  | group joined within ih =>
      rw [nodes_eq, List.forall_mem_cons]
      refine ⟨.group joined within, fun inner member => ?_⟩
      obtain ⟨child, childMember, inside⟩ := List.mem_flatMap.mp member
      exact ih child childMember inner inside

/-- The settled groups of brackets in a tree are groups of the same pairs. -/
theorem enclosesPairs_settled {settled : Node} {pairs : List BracketPair}
    (laid : Laid lexicon source node) (settles : SettledFrom source settled node)
    (each : List.Forall₂ EnclosesPair pairs node.pairNodes) :
    List.Forall₂ EnclosesPair pairs settled.pairNodes := by
  have same : List.Forall₂ (SettledFrom source) settled.pairNodes node.pairNodes := by
    refine List.rel_filter ?_ settles.nodes
    rintro _ inner ⟨owns, rfl⟩
    simp [isPair_settleRec]
  have laidAll : ∀ inner ∈ node.pairNodes, Laid lexicon source inner :=
    fun inner member => laid.of_mem_nodes inner (List.mem_of_mem_filter member)
  generalize node.pairNodes = trees at each same laidAll
  generalize settled.pairNodes = settledTrees at same
  induction each generalizing settledTrees with
  | nil =>
      cases same
      exact .nil
  | cons encloses _ ih =>
      obtain _ | ⟨first, rest⟩ := same
      rw [List.forall_mem_cons] at laidAll
      exact .cons (encloses.settled laidAll.1 first) (ih laidAll.2 _ rest)

/-! ## Pairs of groups -/

theorem pairNodes_of_isPair (isPair : node.isPair = true) :
    node.pairNodes = node :: node.children.flatMap pairNodes := by
  rw [pairNodes, nodes_eq, List.filter_cons_of_pos isPair, List.filter_flatMap]
  rfl

theorem pairNodes_of_not_isPair (notPair : node.isPair = false) :
    node.pairNodes = node.children.flatMap pairNodes := by
  rw [pairNodes, nodes_eq, List.filter_cons_of_neg (by simp [notPair]), List.filter_flatMap]
  rfl

/-- The groups of brackets in a tree are those of its pairs.  What the pairs of the tree are
where it is the head of an indented part depends on whether it is such a group. -/
structure PairsMatch (tree : Tree Token Operator) (node : Node) : Prop where
  each : List.Forall₂ EnclosesPair (tree.bracketPairs false) node.pairNodes
  own : node.isPair = true → ∃ pair rest, tree.bracketPairs false = pair :: rest ∧
    tree.bracketPairs true = pair.heading :: rest
  other : node.isPair = false → tree.bracketPairs true = tree.bracketPairs false

theorem pairsMatch_all (each : List.Forall₂ PairsMatch operands parts) :
    List.Forall₂ EnclosesPair (bracketPairsOf false operands) (parts.flatMap pairNodes) := by
  induction each with
  | nil => exact .nil
  | cons first _ ih => exact List.rel_append first.each ih

/-- The group of a bracket pair has the texts of the brackets. -/
theorem Shaped.eq_of_brackets {opener closer : Operator}
    (shaped : Shaped [opener, closer] parts node) (opener_eq : opener.token.lexeme = .opener) :
    ∃ wide span, node =
      .group .inline (.pair opener.token.text closer.token.text) wide parts ⟨span, "", ""⟩ := by
  have notJoint : opener.token.isJoint ≠ true := by
    intro isJoint
    rcases (Token.isJoint_iff _).mp isJoint with lexeme_eq | lexeme_eq <;>
      rw [lexeme_eq] at opener_eq <;> contradiction
  cases shaped with
  | pair operators_eq _ _ wide span =>
      cases operators_eq
      exact ⟨wide, span, rfl⟩
  | indented operators_eq indent_eq =>
      cases operators_eq
      rw [indent_eq] at opener_eq
      contradiction
  | paragraph lines => exact absurd (lines opener (by simp)).1 notJoint
  | blank lines => exact absurd (lines opener (by simp)).1 notJoint
  | juxtaposed joints => exact absurd (joints opener (by simp)) notJoint
  | named plain =>
      have other := plain opener (by simp)
      rw [opener_eq] at other
      contradiction

theorem Shaped.isPair_eq_false (shaped : Shaped operators parts node)
    (plain : ∀ op ∈ operators, op.token.isBracket = false)
    (notIndent : isIndentPair operators = false) : node.isPair = false := by
  cases shaped with
  | @pair opener closer operators_eq opener_eq =>
      have other := plain opener (by simp [operators_eq])
      rw [Token.isBracket, opener_eq] at other
      contradiction
  | indented operators_eq indent_eq dedent_eq =>
      rw [operators_eq, isIndentPair, indent_eq, dedent_eq] at notIndent
      contradiction
  | paragraph | blank | juxtaposed => rfl
  | @named form => cases form <;> rfl

theorem pairsMatch_of_bracketed {opener closer : Operator} {left right : Token}
    {inner : Tree Token Operator} (formed : Formed lexicon source operators operands)
    (bracketed : Bracketed operators operands opener closer left right inner)
    (built : List.Forall₂ (fun operand part => operand.build (nodeGrammar source) = .ok part)
      operands parts)
    (within : List.Forall₂ PairsMatch operands parts)
    (node_eq : ofGroup operators parts = .ok node) :
    PairsMatch (.group operators operands) node := by
  obtain ⟨start, stop, laidOut⟩ := formed.laidOut parts (buildAll_of_forall₂ built)
  have shaped := formed.shaped node_eq
  have others := pairsMatch_all within
  have pairs_eq := bracketPairs_of_bracketed bracketed
  obtain ⟨rfl, opener_eq, -, rfl, left_eq, right_eq⟩ := bracketed
  obtain ⟨wide, span, rfl⟩ := shaped.eq_of_brackets opener_eq
  obtain ⟨first, middle, last, rfl, first_eq, -, last_eq⟩ := exists_of_forall₂_triple built
  obtain rfl := Except.ok.inj first_eq
  obtain rfl := Except.ok.inj last_eq
  obtain ⟨-, behindFirst⟩ := laidOut.tile.uncons
  obtain ⟨opener_start, behindOpener⟩ := behindFirst.uncons
  obtain ⟨middle_start, behindMiddle⟩ := behindOpener.uncons
  obtain ⟨closer_start, -⟩ := behindMiddle.uncons
  refine ⟨?_, fun _ => ⟨_, _, pairs_eq false, pairs_eq true⟩,
    fun notPair => absurd notPair.symm Bool.false_ne_true⟩
  rw [pairs_eq, pairNodes_of_isPair rfl]
  refine .cons (.intro ?_ opener_start.symm middle_start closer_start.symm ?_) ?_
  · rw [isVoid_ofToken, left_eq]
    rfl
  · simp [isVoid_ofToken, right_eq]
  · simpa [bracketPairsOf, bracketPairs, children] using others

theorem isPair_of_isBlock {tag : Tag} (isBlock : node.isBlock tag = true) :
    node.isPair = false := by
  cases node with
  | group form => cases form <;> first | contradiction | rfl
  | _ => rfl

/-- The lines of a body have its groups of brackets. -/
theorem pairNodes_lines (first : Node) (span : Span) :
    (block .indented (first :: bodyLines body ++ [tail]) span).pairNodes =
      first.pairNodes ++ (body.pairNodes ++ tail.pairNodes) := by
  have lines_eq : (bodyLines body).flatMap pairNodes = body.pairNodes := by
    have filtered := filter_nodes_bodyLines (@isPair_of_isBlock body .paragraph)
    rwa [List.filter_flatMap] at filtered
  rw [pairNodes_of_not_isPair rfl]
  simp [block, children, lines_eq]

/-- An indented part has the groups of brackets of its operands, where the head is none. -/
theorem pairNodes_indentBlock (notPair : head.isPair = false) :
    (indentBlock operators span head body tail).isPair = false ∧
      (indentBlock operators span head body tail).pairNodes =
        head.pairNodes ++ (body.pairNodes ++ tail.pairNodes) := by
  rcases indentBlock_cases operators span head body tail with
    block_eq | ⟨tag, wide, before, last, place, -, rfl, block_eq⟩
  · rw [block_eq]
    exact ⟨rfl, pairNodes_lines head span⟩
  · have same : ∀ (children : List Node) (place : Place),
        (group .inline tag wide children place).isPair = false := by
      intro children place
      cases tag with
      | single => rfl
      | pair => contradiction
    rw [block_eq, pairNodes_of_not_isPair (same _ _), pairNodes_of_not_isPair (same _ _), children,
      children, List.flatMap_append, List.flatMap_append, List.flatMap_singleton,
      List.flatMap_singleton, pairNodes_lines, List.append_assoc]
    exact ⟨same _ _, rfl⟩

theorem EnclosesPair.isPair (encloses : EnclosesPair pair node) : node.isPair = true := by
  cases encloses
  rfl

/-- The group of a bracket pair takes the indented part that it is the head of behind its
closing bracket. -/
theorem EnclosesPair.indentBlock (encloses : EnclosesPair pair head) :
    EnclosesPair pair.heading (indentBlock operators span head body tail) ∧
      (indentBlock operators span head body tail).children.flatMap pairNodes =
        head.children.flatMap pairNodes ++ (body.pairNodes ++ tail.pairNodes) := by
  cases encloses with
  | @intro wide left inner right place left_isVoid left_stop inner_start inner_stop _ =>
      constructor
      · exact .intro left_isVoid left_stop inner_start inner_stop rfl
      · obtain ⟨range, children_eq⟩ : ∃ range, (Node.indentBlock operators span (group .inline
            (.pair pair.opener.text pair.closer.text) wide [left, inner, right] place) body
              tail).children = [left, inner, block .indented (right :: bodyLines body ++ [tail])
                range] := ⟨_, rfl⟩
        rw [children_eq, children]
        simp only [List.flatMap_cons, List.flatMap_nil, pairNodes_lines, List.append_assoc,
          List.append_nil]

/-- An indented part has the groups of brackets of its head, of which the head itself may be
one, its body and its tail. -/
theorem pairsMatch_of_indented {indent dedent : Operator}
    {headTree bodyTree tailTree : Tree Token Operator}
    (indent_eq : indent.token.lexeme = .indent) (dedent_eq : dedent.token.lexeme = .dedent)
    (headMatch : PairsMatch headTree head) (bodyMatch : PairsMatch bodyTree body)
    (tailMatch : PairsMatch tailTree tail) :
    PairsMatch (.group [indent, dedent] [headTree, bodyTree, tailTree])
      (indentBlock [indent, dedent] span head body tail) := by
  have pairs_eq : ∀ headed,
      bracketPairs headed (.group [indent, dedent] [headTree, bodyTree, tailTree]) =
        bracketPairs true headTree ++
          (bracketPairs false bodyTree ++ bracketPairs false tailTree) := by
    intro headed
    rw [bracketPairs_of_plain (by simp [Token.isBracket, indent_eq, dedent_eq])]
    simp [isIndentPair, indent_eq, dedent_eq, bracketPairsOf]
  have behind := List.rel_append bodyMatch.each tailMatch.each
  cases isPair : head.isPair with
  | false =>
      obtain ⟨notPair, nodes_eq⟩ := @pairNodes_indentBlock [indent, dedent] _ body tail span isPair
      refine ⟨?_, fun isPair => absurd (notPair.symm.trans isPair) Bool.false_ne_true, fun _ => ?_⟩
      · rw [pairs_eq, headMatch.other isPair, nodes_eq]
        exact List.rel_append headMatch.each behind
      · rw [pairs_eq, pairs_eq]
  | true =>
      obtain ⟨pair, rest, false_eq, true_eq⟩ := headMatch.own isPair
      have each := headMatch.each
      rw [false_eq, pairNodes_of_isPair isPair, List.forall₂_cons] at each
      obtain ⟨spliced, nodes_eq⟩ :=
        @EnclosesPair.indentBlock [indent, dedent] _ _ body tail span each.1
      refine ⟨?_, fun _ => ?_, fun notPair =>
        absurd (notPair.symm.trans spliced.isPair) Bool.false_ne_true⟩
      · rw [pairs_eq, true_eq, pairNodes_of_isPair spliced.isPair, nodes_eq]
        exact .cons spliced (List.rel_append each.2 behind)
      · rw [pairs_eq, pairs_eq, true_eq]
        exact ⟨pair.heading, _, rfl, rfl⟩

/-- The groups of brackets in a tree are those of its pairs. -/
theorem pairsMatch_of_build (every : tree.Every (Formed lexicon source))
    (build_eq : tree.build (nodeGrammar source) = .ok node) : PairsMatch tree node := by
  refine build_every_induction ?_ ?_ every build_eq
  · intro token
    have notPair : (ofToken source token).isPair = false := by
      rw [ofToken]
      split <;> rfl
    refine ⟨?_, fun isPair => absurd (notPair.symm.trans isPair) Bool.false_ne_true, fun _ => rfl⟩
    rw [pairNodes_of_not_isPair notPair, children_ofToken]
    exact .nil
  · intro operators operands parts node formed built within node_eq
    rcases formed.bracketed_or_plain with ⟨opener, closer, left, right, inner, bracketed⟩ | plain
    · exact pairsMatch_of_bracketed formed bracketed built within node_eq
    have shaped := formed.shaped node_eq
    rcases shaped.children_or_indented with
      ⟨children_eq, -, notIndent⟩ |
        ⟨_, _, head, body, tail, span, rfl, indent_eq, dedent_eq, rfl, rfl⟩
    · have single : isIndentPair operators = false := by
        refine Bool.eq_false_iff.mpr fun isIndent => ?_
        obtain ⟨indent, dedent, rfl, indent_eq, -⟩ := exists_of_isIndentPair isIndent
        exact notIndent indent (by simp) indent_eq
      have notPair := shaped.isPair_eq_false plain single
      have pairs_eq : ∀ headed, bracketPairs headed (.group operators operands) =
          bracketPairsOf false operands := single ▸ bracketPairs_of_plain plain
      refine ⟨?_, fun isPair => absurd (notPair.symm.trans isPair) Bool.false_ne_true, fun _ => ?_⟩
      · rw [pairs_eq, pairNodes_of_not_isPair notPair, children_eq]
        exact pairsMatch_all within
      · rw [pairs_eq, pairs_eq]
    · obtain ⟨headTree, bodyTree, tailTree, rfl, headMatch, bodyMatch, tailMatch⟩ :=
        exists_of_forall₂_triple within.flip
      exact pairsMatch_of_indented indent_eq dedent_eq headMatch bodyMatch tailMatch

end Node

open Node

variable {root : Node}

/-- A parsed tree has one group of brackets for each two brackets of the text that are matched,
in the order of the opening ones, and no bracket is left over. -/
theorem parse_bracketPairs (parsed : parse lexicon source = .ok root) :
    ∃ (tokens : List Token) (tree : Tree Token Operator),
      tokenStream lexicon source = tokens.map .ok ∧ groupTokens lexicon tokens = .ok tree ∧
      (tree.bracketPairs false).map BracketPair.tokens = matchedPairs (brackets lexicon source) ∧
      (brackets lexicon source).length = 2 * (matchedPairs (brackets lexicon source)).length ∧
      List.Forall₂ EnclosesPair (tree.bracketPairs false)
        ((root.preorder.map Prod.snd).filter isPair) := by
  obtain ⟨origin⟩ := exists_origin parsed
  refine ⟨_, _, origin.stream_eq, origin.groupTokens_eq, ?_, origin.nested.closed.2, ?_⟩
  · rw [(closed_brackets origin.formed).2, brackets_of_elements origin.streams.fits
      origin.groups.elements_eq, origin.steps.filter_isBracket origin.complete]
  · rw [map_snd_preorder]
    exact enclosesPairs_settled (origin.groups.laid origin.streams).1 origin.settledFrom
      (pairsMatch_of_build origin.formed origin.groups.build_eq).each

/-- A word in brackets with an indented line, and a line behind that. -/
def headedText : Source :=
  { text := "[a]\n\tb\nc" }

/-- The tree of the lines, of which the first one is a group of brackets. -/
def headedTree : Node :=
  .group .block .paragraph true
    [.group .inline (.pair "[" "]") true
        [.void ⟨.point 0, "", ""⟩,
          .leaf "a" ⟨.between 1 2, "", ""⟩,
          .group .block .indented true
            [.void ⟨.point 3, "", ""⟩,
              .leaf "b" ⟨.between 3 6, "\n\t", ""⟩,
              .void ⟨.point 6, "", ""⟩]
            ⟨.between 3 6, "", ""⟩]
        ⟨.between 0 6, "", ""⟩,
      .leaf "c" ⟨.between 6 8, "\n", ""⟩]
    ⟨.between 0 8, "", ""⟩

theorem parse_bracketPairs_headedTree :
    parse .standard headedText = .ok headedTree ∧
      ∃ (tokens : List Token) (tree : Tree Token Operator),
        tokenStream .standard headedText = tokens.map .ok ∧
        groupTokens .standard tokens = .ok tree ∧
        (tree.bracketPairs false).map BracketPair.tokens =
          matchedPairs (brackets .standard headedText) ∧
        (brackets .standard headedText).length =
          2 * (matchedPairs (brackets .standard headedText)).length ∧
        List.Forall₂ EnclosesPair (tree.bracketPairs false)
          ((headedTree.preorder.map Prod.snd).filter isPair) := by
  have parsed : parse .standard headedText = .ok headedTree := by cbv
  exact ⟨parsed, parse_bracketPairs parsed⟩

end OperatorMarkup
