import Mathlib
import OperatorMarkup.Proofs.Parse.Groups
import OperatorMarkup.Tree.Signature

/-!
# Operands that are left out

An operand that is left out stays with the operator that lacks it.  So a group with a leading
operator in front has a void operand there, a group with a trailing operator at its end has one
at that end, and no void operand comes to stand in a line or beside other operands.

The groups that a text is asked to give nodes for are seen by grouping with a trace, which
changes nothing about the nodes.
-/

namespace OperatorMarkup

open Grouping Grouping.Tree Operator

/-- A group that a node is asked for: its operators, and its operands in order. -/
structure AskedGroup where
  /-- The operators. -/
  operators : List Operator
  /-- The operands. -/
  operands : List Node

namespace AskedGroup

/-- Operators that lack an operand at an end of their group have a void one there. -/
structure HasPlaceholders (asked : AskedGroup) : Prop where
  first : ∀ op ∈ asked.operators.head?, op.token.kind = .operator .prefixOp →
    asked.operands.head?.map Node.isVoid = some true
  last : ∀ op ∈ asked.operators.getLast?, op.token.kind = .operator .suffixOp →
    asked.operands.getLast?.map Node.isVoid = some true

end AskedGroup

namespace Node

/-- The grammar of nodes, each with the groups that nodes were asked for on the way to it. -/
def tracedGrammar (source : Source) :
    Grammar (Except Error) Token Operator (Node × List AskedGroup) :=
  Operator.grammar (fun token => (ofToken source token, [])) fun operators operands =>
    (ofGroup operators (operands.map Prod.fst)).map fun node =>
      (node, operands.flatMap Prod.snd ++ [⟨operators, operands.map Prod.fst⟩])

variable {lexicon : Lexicon} {source : Source} {operators : List Operator}
  {operands : List (Tree Token Operator)} {tree : Tree Token Operator} {node : Node}
  {parts : List Node} {good : AskedGroup → Prop}

/-! ## Tracing -/

/-- A tree is built with a trace into a node, and all groups asked for on the way are good. -/
def BuiltWithTrace (source : Source) (good : AskedGroup → Prop) (tree : Tree Token Operator)
    (node : Node) : Prop :=
  ∃ groups, tree.build (tracedGrammar source) = .ok (node, groups) ∧ ∀ asked ∈ groups, good asked

theorem buildAll_trace (each : List.Forall₂ (BuiltWithTrace source good) operands parts) :
    ∃ traced, buildAll (tracedGrammar source) operands = .ok traced ∧ traced.map Prod.fst = parts ∧
      ∀ asked ∈ traced.flatMap Prod.snd, good asked := by
  induction each with
  | nil => exact ⟨[], rfl, rfl, nofun⟩
  | @cons operand part _ _ first _ ih =>
      obtain ⟨groups, first_eq, firstGood⟩ := first
      obtain ⟨traced, rest_eq, rfl, restGood⟩ := ih
      refine ⟨(part, groups) :: traced, ?_, rfl, ?_⟩
      · exact buildAll_cons_eq_ok_iff.mpr ⟨_, _, first_eq, rest_eq, rfl⟩
      · rw [List.flatMap_cons]
        exact List.forall_mem_append.mpr ⟨firstGood, restGood⟩

/-- A tree is built with a trace as it is without one.  The groups that are asked for are those
of the tree. -/
theorem build_trace {holds : List Operator → List (Tree Token Operator) → Prop}
    (asked : ∀ operators operands parts, holds operators operands →
      List.Forall₂ (fun operand part => operand.build (nodeGrammar source) = .ok part) operands
        parts → good ⟨operators, parts⟩)
    (every : tree.Every holds) (build_eq : tree.build (nodeGrammar source) = .ok node) :
    BuiltWithTrace source good tree node := by
  refine build_every_induction ?_ ?_ every build_eq
  · exact fun token => ⟨[], rfl, nofun⟩
  · intro operators operands parts node here built traces node_eq
    obtain ⟨traced, traced_eq, rfl, allGood⟩ := buildAll_trace traces
    refine ⟨traced.flatMap Prod.snd ++ [⟨operators, traced.map Prod.fst⟩], ?_, ?_⟩
    · rw [Tree.build, traced_eq]
      change (ofGroup operators (traced.map Prod.fst)).map _ = _
      rw [node_eq]
      rfl
    · refine List.forall_mem_append.mpr ⟨allGood, List.forall_mem_singleton.mpr ?_⟩
      exact asked operators operands _ here built

/-- The elements of a text are grouped with a trace as they are without one. -/
theorem group_trace {root : Node} (origin : Origin lexicon source root)
    (asked : ∀ operators operands parts, Formed lexicon source operators operands →
      List.Forall₂ (fun operand part => operand.build (nodeGrammar source) = .ok part) operands
        parts → good ⟨operators, parts⟩) :
    ∃ groups, (tracedGrammar source).group (elements lexicon source) = .ok (origin.node, groups) ∧
      ∀ asked ∈ groups, good asked := by
  have elements_eq : elements lexicon source =
      (origin.steps.written.map (Token.element lexicon)).map .ok := by
    rw [elements, origin.stream_eq, List.map_map, List.map_map]
    rfl
  have agree : Except.Agree (fun tree traced => tree.build (tracedGrammar source) = .ok traced)
      (groupTokens lexicon origin.steps.written)
      ((tracedGrammar source).group (elements lexicon source)) := by
    rw [elements_eq]
    refine group_agree ?_ (fun operand => ⟨_, rfl⟩) (elements_fit origin.streams.fits)
    intro tree ordered fits
    obtain ⟨node, build_eq⟩ := @exists_build lexicon source tree ordered fits
    have traces : BuiltWithTrace source (fun _ => True) tree node :=
      build_trace (fun _ _ _ _ _ => trivial) ordered.every build_eq
    obtain ⟨groups, traced_eq, -⟩ := traces
    exact ⟨_, traced_eq⟩
  rw [origin.groupTokens_eq] at agree
  obtain ⟨traced, group_eq, traced_eq⟩ := Except.agree_ok_iff.mp agree
  obtain ⟨groups, build_eq, allGood⟩ := build_trace asked origin.formed origin.groups.build_eq
  obtain rfl := Except.ok.inj (traced_eq.symm.trans build_eq)
  exact ⟨groups, group_eq, allGood⟩

/-! ## Void operands -/

theorem isVoid_ofGroup (build_eq : ofGroup operators parts = .ok node) : node.isVoid = false := by
  obtain ⟨-, _, _, span, -, -, ⟨-, head, body, tail, -, rfl⟩ | ⟨-, tagged⟩⟩ :=
    ofGroup_cases build_eq
  · rcases indentBlock_cases operators span head body tail with
      block_eq | ⟨_, _, _, _, _, _, _, block_eq⟩ <;> rw [block_eq] <;> rfl
  · rcases ofTagged_cases tagged with ⟨-, -, rfl⟩ | ⟨_, -, rfl⟩ <;> rfl

/-- Only the leaf of a token that stands for nothing is built into a void node. -/
theorem exists_leaf_of_isVoid (build_eq : tree.build (nodeGrammar source) = .ok node)
    (isVoid : node.isVoid = true) : ∃ token, tree = .leaf token ∧ token.kind = .void := by
  cases tree with
  | leaf token =>
      obtain rfl := Except.ok.inj build_eq
      exact ⟨token, rfl, of_decide_eq_true (isVoid_ofToken source token ▸ isVoid)⟩
  | group operators operands =>
      obtain ⟨parts, -, node_eq⟩ := Except.bind_eq_ok_iff.mp build_eq
      rw [isVoid_ofGroup node_eq] at isVoid
      contradiction

/-- The operands of a formed group keep their places for the operators that lack them. -/
theorem hasPlaceholders_of_formed (formed : Formed lexicon source operators operands)
    (built : List.Forall₂ (fun operand part => operand.build (nodeGrammar source) = .ok part)
      operands parts) : AskedGroup.HasPlaceholders ⟨operators, parts⟩ := by
  constructor
  · intro op member leads
    obtain ⟨token, head_eq, kind_eq⟩ := formed.leads op member leads
    obtain ⟨rest, rfl⟩ := List.head?_eq_some_iff.mp head_eq
    obtain ⟨part, _, part_eq, -, rfl⟩ := List.forall₂_cons_left_iff.mp built
    obtain rfl := Except.ok.inj part_eq
    simp [isVoid_ofToken, kind_eq]
  · intro op member trails
    obtain ⟨token, last_eq, kind_eq⟩ := formed.trails op member trails
    obtain ⟨front, rfl⟩ := List.getLast?_eq_some_iff.mp last_eq
    obtain ⟨before, last, rfl, -, lasts⟩ := exists_of_forall₂_append built
    obtain ⟨part, _, part_eq, none, rfl⟩ := List.forall₂_cons_left_iff.mp lasts
    obtain rfl := List.forall₂_nil_left_iff.mp none
    obtain rfl := Except.ok.inj part_eq
    simp [isVoid_ofToken, kind_eq]

/-- A parsed tree has no void operand beside others without an operator between them, nor as
a line. -/
theorem isVoid_of_isJoined {root : Node} (origin : Origin lexicon source root)
    (member : node ∈ root.nodes) (isJoined : node.isJoined = true) :
    ∀ child ∈ node.children, child.isVoid = false := by
  obtain ⟨joined, operators, operands, settled, joins⟩ := origin.exists_joinsParts member isJoined
  intro child childMember
  obtain ⟨part, partMember, owns, rfl⟩ := exists_of_mem_forall₂ settled.children.flip childMember
  obtain ⟨operand, operandMember, build_eq⟩ := exists_of_mem_forall₂ joins.built partMember
  rw [isVoid_settleRec]
  by_contra isVoid
  rw [Bool.not_eq_false] at isVoid
  obtain ⟨token, rfl, kind_eq⟩ := exists_leaf_of_isVoid build_eq isVoid
  exact joins.formed.joined (fun op member => (joins.joints op member).isJoint) token
    operandMember kind_eq

end Node

variable {lexicon : Lexicon} {source : Source} {root : Node}

/-- Void operands stay with the operators that lack them, in the groups that a node is asked for
while a text is parsed and in the tree that results. -/
theorem parse_placeholders (parsed : parse lexicon source = .ok root) :
    (∃ node groups,
      (Node.tracedGrammar source).group (elements lexicon source) = .ok (node, groups) ∧
        groupedTree lexicon source = .ok node ∧
        root = (node.settle source ⟨true, true⟩).node ∧
        ∀ asked ∈ groups, asked.HasPlaceholders) ∧
    ∀ node : Node, node.OccursIn root → node.isJoined = true →
      (∀ child ∈ node.children, child.isVoid = false) ∧
        ∀ there ∈ node.signature.arguments, there = true := by
  obtain ⟨origin⟩ := exists_origin parsed
  constructor
  · obtain ⟨groups, group_eq, good⟩ := Node.group_trace origin fun operators operands parts =>
      Node.hasPlaceholders_of_formed
    exact ⟨origin.node, groups, group_eq, origin.groupedTree_eq, origin.root_eq, good⟩
  · intro node occurs isJoined
    have filled := Node.isVoid_of_isJoined origin (Node.mem_nodes_iff.mpr occurs) isJoined
    refine ⟨filled, fun there member => ?_⟩
    obtain ⟨child, childMember, rfl⟩ := List.mem_map.mp member
    rw [filled child childMember]
    rfl

/-- An operator before two words, and brackets behind a blank line. -/
def markedWords : Source :=
  { text := "-a b\n\n[c]" }

/-- The tree of the marked words. -/
def markedTree : Node :=
  .group .block .blank true
    [.group .inline (.single "-") false
        [.void ⟨.point 0, "", ""⟩,
          .group .inline .empty true
            [.leaf "a" ⟨.between 1 2, "", ""⟩, .leaf "b" ⟨.between 2 4, " ", ""⟩]
            ⟨.between 1 4, "", ""⟩]
        ⟨.between 0 4, "", ""⟩,
      .group .inline (.pair "[" "]") true
        [.void ⟨.point 6, "", ""⟩, .leaf "c" ⟨.between 7 8, "", ""⟩, .void ⟨.point 9, "", ""⟩]
        ⟨.between 4 9, "\n\n", ""⟩]
    ⟨.between 0 9, "", ""⟩

theorem parse_placeholders_markedTree :
    parse .standard markedWords = .ok markedTree ∧
      (∃ node groups,
        (Node.tracedGrammar markedWords).group (elements .standard markedWords) =
            .ok (node, groups) ∧
          groupedTree .standard markedWords = .ok node ∧
          markedTree = (node.settle markedWords ⟨true, true⟩).node ∧
          ∀ asked ∈ groups, asked.HasPlaceholders) ∧
      ∀ node : Node, node.OccursIn markedTree → node.isJoined = true →
        (∀ child ∈ node.children, child.isVoid = false) ∧
          ∀ there ∈ node.signature.arguments, there = true := by
  have parsed : parse .standard markedWords = .ok markedTree := by cbv
  exact ⟨parsed, parse_placeholders parsed⟩

end OperatorMarkup
