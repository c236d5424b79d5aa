import Mathlib
import OperatorMarkup.Proofs.Parse.Groups

/-!
# Lines of paragraphs and of blank blocks

A line of a block owns the gap before it, which is the one that the joint before the line
measures, however deep in the line the first leaf lies.  All joints of a block bind alike, so
one with a blank line among them has nothing else, and what lies in a line binds tighter.
-/

namespace OperatorMarkup

open Grouping Grouping.Tree Operator

variable {lexicon : Lexicon} {source : Source} {operators inner : List Operator}
  {operands parts : List (Tree Token Operator)} {op left right : Operator}

/-! ## Joints at line ends -/

namespace Operator

/-- A joint at a line end binds as line ends do. -/
theorem priority_of_tall (fits : op.Fits lexicon) (isJoint : op.token.isJoint = true)
    (level : op.token.Level) (tall : 0 < op.token.gapHeight) :
    op.left.priority = lineBreakPriority op.token := by
  refine (Node.lineBreakPriority_of_joint fits isJoint level ?_).2.1
  rw [Token.isLineLevel, Bool.or_eq_true]
  left
  rcases (Token.isJoint_iff _).mp isJoint with lexeme_eq | lexeme_eq
  · simp [Token.isLineBreak, lexeme_eq]
  · simp [Token.isLineBreak, lexeme_eq, tall]

theorem Fits.joins_of_isJoint (fits : op.Fits lexicon) (isJoint : op.token.isJoint = true) :
    op.Joins := by
  apply fits.joins
  rcases (Token.isJoint_iff _).mp isJoint with lexeme_eq | lexeme_eq <;> simp [lexeme_eq]

theorem Fits.left_text_of_isJoint (fits : op.Fits lexicon) (isJoint : op.token.isJoint = true) :
    op.left.text = "" := by
  rw [fits.eq]
  rcases (Token.isJoint_iff _).mp isJoint with lexeme_eq | lexeme_eq <;>
    simp [ofToken, faces, lexeme_eq]

/-- Where a joint starts a group behind another one, or ends it before that one, it binds
tighter. -/
theorem lt_of_order_joints (leftFits : left.Fits lexicon) (rightFits : right.Fits lexicon)
    (leftJoint : left.token.isJoint = true) (rightJoint : right.token.isJoint = true) :
    (order left right = .ok .right → left.left.priority < right.left.priority) ∧
      (order left right = .ok .left → right.left.priority < left.left.priority) := by
  have leftJoins := leftFits.joins_of_isJoint leftJoint
  have rightJoins := rightFits.joins_of_isJoint rightJoint
  have text_eq : left.left.text = right.left.text := by
    rw [leftFits.left_text_of_isJoint leftJoint, rightFits.left_text_of_isJoint rightJoint]
  rcases Priority.lt_trichotomy left.left.priority right.left.priority with
    tighter | priority_eq | looser
  · rw [leftJoins.order_of_tighter rightJoins tighter]
    exact ⟨fun _ => tighter, nofun⟩
  · rw [leftJoins.order_of_same rightJoins text_eq priority_eq]
    exact ⟨nofun, nofun⟩
  · rw [leftJoins.order_of_looser rightJoins looser]
    exact ⟨nofun, fun _ => looser⟩

end Operator

/-- A group of joints inside of a group of joints binds tighter. -/
theorem exists_tighter (formed : Formed lexicon source operators operands)
    (innerFormed : Formed lexicon source inner parts)
    (joints : ∀ op ∈ operators, op.token.isJoint = true)
    (innerJoints : ∀ op ∈ inner, op.token.isJoint = true)
    (member : Tree.group inner parts ∈ operands) :
    ∃ op ∈ operators, ∃ other ∈ inner, op.left.priority < other.left.priority := by
  have fits := formed.fits
  have innerFits := innerFormed.fits
  obtain _ | ⟨nonempty, arity, _, starts, ends, _⟩ := formed.ordered
  have innerNonempty := innerFormed.ordered.nonempty
  obtain ⟨first, operands, rfl⟩ := List.exists_cons_of_length_eq_add_one arity
  rcases List.mem_cons.mp member with rfl | later
  · obtain ⟨op, operators, rfl⟩ := List.exists_cons_of_ne_nil nonempty
    obtain ⟨before, last, rfl⟩ : ∃ before last, inner = before ++ [last] :=
      ⟨_, _, (List.dropLast_concat_getLast innerNonempty).symm⟩
    have endsHere := ends (group (before ++ [last]) parts, op) (by simp) (before ++ [last])
      List.mem_cons_self last (by simp)
    refine ⟨op, List.mem_cons_self, last, by simp, ?_⟩
    exact (lt_of_order_joints (innerFits _ (by simp)) (fits _ (by simp))
      (innerJoints _ (by simp)) (joints _ (by simp))).2 endsHere
  · obtain ⟨op, opMember, linkMember⟩ := exists_link arity later
    obtain ⟨other, others, rfl⟩ := List.exists_cons_of_ne_nil innerNonempty
    have startsHere := starts _ linkMember (other :: others) List.mem_cons_self other rfl
    refine ⟨op, opMember, other, List.mem_cons_self, ?_⟩
    exact (lt_of_order_joints (fits _ opMember) (innerFits _ (by simp)) (joints _ opMember)
      (innerJoints _ (by simp))).1 startsHere

/-! ## Lines -/

namespace Node

variable {node child root : Node}

/-- A joint measures the gap on either side of it, which is the same one. -/
theorem gapHeight_of_joint (fits : op.Fits lexicon) (isJoint : op.token.isJoint = true)
    (level : op.token.Level) : op.token.gapHeight = Gap.height op.token.after := by
  rw [Token.gapHeight, Token.heightBefore, Token.heightAfter,
    level.same (fits.token.of_isJoint isJoint).1, Nat.max_self]

/-- The whitespace of an operand behind a joint is the gap that the joint measures. -/
theorem JoinsParts.exists_joint (joins : node.JoinsParts lexicon source operators operands)
    (member : child ∈ node.children.tail) :
    ∃ op, node.JoinedBy op ∧ Gap.height (child.leftEdge source) = op.token.gapHeight := by
  have tails : List.Forall₂ (fun operand part => operand.build (nodeGrammar source) = .ok part)
      operands.tail node.children.tail := by
    have built := joins.built
    generalize node.children = children at built
    cases built with
    | nil => exact .nil
    | cons _ rest => exact rest
  obtain ⟨operand, operandMember, build_eq⟩ := exists_of_mem_forall₂ tails member
  obtain ⟨op, opMember, linkMember⟩ := exists_link joins.formed.ordered.arity operandMember
  have every := joins.within operand (List.mem_of_mem_tail operandMember)
  obtain _ | ⟨_, _, _, _, _, within⟩ := joins.formed.ordered
  obtain ⟨token, head_eq⟩ :=
    exists_head_of_ordered (within operand (List.mem_of_mem_tail operandMember))
  have joined := joins.joints op opMember
  refine ⟨op, joined, ?_⟩
  rw [leftEdge_of_build every build_eq token head_eq,
    joins.formed.offers _ linkMember joined.isJoint token head_eq,
    gapHeight_of_joint (joins.formed.fits op opMember) joined.isJoint
      (joins.formed.level op opMember)]

/-- A block inside of a block binds tighter. -/
theorem JoinsParts.exists_tighter_of_child
    (joins : node.JoinsParts lexicon source operators operands) (member : child ∈ node.children)
    (isJoined : child.isJoined = true) :
    ∃ op other : Operator, node.JoinedBy op ∧ child.JoinedBy other ∧
      op.Fits lexicon ∧ op.token.Level ∧ other.Fits lexicon ∧ other.token.Level ∧
      op.left.priority < other.left.priority := by
  obtain ⟨operand, operandMember, build_eq⟩ := exists_of_mem_forall₂ joins.built member
  have every := joins.within operand operandMember
  cases operand with
  | leaf token =>
      obtain rfl := Except.ok.inj build_eq
      rw [isJoined_ofToken] at isJoined
      contradiction
  | group inner parts =>
      obtain ⟨nodes, -, node_eq⟩ := Except.bind_eq_ok_iff.mp build_eq
      have formed := (every_group_iff.mp every).1
      obtain ⟨-, joints⟩ := (formed.shaped node_eq).joined isJoined
      obtain ⟨op, opMember, other, otherMember, tighter⟩ := exists_tighter joins.formed formed
        (fun op member => (joins.joints op member).isJoint)
        (fun op member => (joints op member).isJoint) operandMember
      exact ⟨op, other, joins.joints op opMember, joints other otherMember,
        joins.formed.fits op opMember, joins.formed.level op opMember,
        formed.fits other otherMember, formed.level other otherMember, tighter⟩

/-- The priority of the joints of a block of lines, given its tag. -/
def linePriority (tag : Tag) : Priority :=
  if tag = .blank then .blankLine else .line

theorem JoinedBy.priority_eq {tag : Tag} (joined : node.JoinedBy op) (fits : op.Fits lexicon)
    (level : op.token.Level) (lines : tag ∈ [Tag.paragraph, .blank])
    (isBlock : node.isBlock tag = true) : op.left.priority = linePriority tag := by
  simp only [List.mem_cons, List.not_mem_nil, or_false] at lines
  rcases lines with rfl | rfl
  · have height_eq := joined.line isBlock
    rw [priority_of_tall fits joined.isJoint level (by omega), lineBreakPriority,
      if_neg (by omega)]
    rfl
  · have tall := joined.blank isBlock
    rw [priority_of_tall fits joined.isJoint level (by omega), lineBreakPriority, if_pos tall]
    rfl

/-- A block of lines inside of a block of lines binds tighter. -/
theorem JoinsParts.lt_of_isBlock {tag childTag : Tag}
    (joins : node.JoinsParts lexicon source operators operands) (member : child ∈ node.children)
    (lines : tag ∈ [Tag.paragraph, .blank]) (childLines : childTag ∈ [Tag.paragraph, .blank])
    (isBlock : node.isBlock tag = true) (childIsBlock : child.isBlock childTag = true) :
    linePriority tag < linePriority childTag := by
  obtain ⟨op, other, joined, otherJoined, fits, level, otherFits, otherLevel, tighter⟩ :=
    joins.exists_tighter_of_child member (isJoined_of_isBlock childLines childIsBlock)
  rwa [joined.priority_eq fits level lines isBlock,
    otherJoined.priority_eq otherFits otherLevel childLines childIsBlock] at tighter

/-- What a block of lines tells about its lines. -/
theorem lines_of_isBlock {tag : Tag} {root : Node} (origin : Origin lexicon source root)
    (member : node ∈ root.nodes) (lines : tag ∈ [Tag.paragraph, .blank])
    (isBlock : node.isBlock tag = true) :
    (∀ child ∈ node.children.tail, ∃ op built, JoinedBy built op ∧ built.isBlock tag = true ∧
        Gap.height child.place.left = op.token.gapHeight) ∧
      ∀ child ∈ node.children, ∀ childTag ∈ [Tag.paragraph, .blank],
        child.isBlock childTag = true → linePriority tag < linePriority childTag := by
  obtain ⟨built, operators, operands, settled, joins⟩ :=
    origin.exists_joinsParts member (isJoined_of_isBlock lines isBlock)
  have builtIsBlock : built.isBlock tag = true := by
    obtain ⟨owns, rfl⟩ := settled
    rwa [isBlock_settleRec] at isBlock
  constructor
  · intro child childMember
    obtain ⟨part, partMember, left_eq⟩ :=
      exists_of_mem_forall₂ settled.left_of_tail.flip childMember
    obtain ⟨op, joined, height_eq⟩ := joins.exists_joint partMember
    exact ⟨op, built, joined, builtIsBlock, left_eq ▸ height_eq⟩
  · intro child childMember childTag childLines childIsBlock
    obtain ⟨part, partMember, owns, rfl⟩ :=
      exists_of_mem_forall₂ settled.children.flip childMember
    rw [isBlock_settleRec] at childIsBlock
    exact joins.lt_of_isBlock partMember lines childLines builtIsBlock childIsBlock

end Node

open Node

variable {root : Node}

/-- The lines of a paragraph lie one line end apart and those of a blank block two or more, and
neither kind of block has lines that it could have taken in. -/
theorem parse_lineBlocks (parsed : parse lexicon source = .ok root) :
    ∀ node : Node, node.OccursIn root →
      (node.isBlock .paragraph = true →
        (∀ child ∈ node.children.tail, Gap.height child.place.left = 1) ∧
          ∀ child ∈ node.children,
            child.isBlock .paragraph = false ∧ child.isBlock .blank = false) ∧
      (node.isBlock .blank = true →
        (∀ child ∈ node.children.tail, 2 ≤ Gap.height child.place.left) ∧
          ∀ child ∈ node.children, child.isBlock .blank = false) := by
  obtain ⟨origin⟩ := exists_origin parsed
  intro node occurs
  have member := mem_nodes_iff.mpr occurs
  constructor
  · intro paragraph
    obtain ⟨heights, tighter⟩ := lines_of_isBlock origin member (by simp) paragraph
    refine ⟨fun child childMember => ?_, fun child childMember => ⟨?_, ?_⟩⟩
    · obtain ⟨op, built, joined, isBlock, height_eq⟩ := heights child childMember
      exact height_eq.trans (joined.line isBlock)
    · exact Bool.eq_false_iff.mpr fun isBlock =>
        absurd (tighter child childMember .paragraph (by simp) isBlock) (by decide)
    · exact Bool.eq_false_iff.mpr fun isBlock =>
        absurd (tighter child childMember .blank (by simp) isBlock) (by decide)
  · intro blank
    obtain ⟨heights, tighter⟩ := lines_of_isBlock origin member (by simp) blank
    refine ⟨fun child childMember => ?_, fun child childMember => ?_⟩
    · obtain ⟨op, built, joined, isBlock, height_eq⟩ := heights child childMember
      exact height_eq ▸ joined.blank isBlock
    · exact Bool.eq_false_iff.mpr fun isBlock =>
        absurd (tighter child childMember .blank (by simp) isBlock) (by decide)

/-- Two lines, and another one behind a blank line. -/
def spacedLines : Source :=
  { text := "a\nb\n\n-c" }

/-- The tree of the lines, where the last one starts with an operator. -/
def spacedTree : Node :=
  .group .block .blank true
    [.group .block .paragraph true
        [.leaf "a" ⟨.between 0 1, "", ""⟩, .leaf "b" ⟨.between 1 3, "\n", ""⟩]
        ⟨.between 0 3, "", ""⟩,
      .group .inline (.single "-") true
        [.void ⟨.point 5, "", ""⟩, .leaf "c" ⟨.between 6 7, "", ""⟩]
        ⟨.between 3 7, "\n\n", ""⟩]
    ⟨.between 0 7, "", ""⟩

theorem parse_lineBlocks_spacedTree :
    parse .standard spacedLines = .ok spacedTree ∧
      ∀ node : Node, node.OccursIn spacedTree →
        (node.isBlock .paragraph = true →
          (∀ child ∈ node.children.tail, Gap.height child.place.left = 1) ∧
            ∀ child ∈ node.children,
              child.isBlock .paragraph = false ∧ child.isBlock .blank = false) ∧
        (node.isBlock .blank = true →
          (∀ child ∈ node.children.tail, 2 ≤ Gap.height child.place.left) ∧
            ∀ child ∈ node.children, child.isBlock .blank = false) := by
  have parsed : parse .standard spacedLines = .ok spacedTree := by cbv
  exact ⟨parsed, parse_lineBlocks parsed⟩

end OperatorMarkup
