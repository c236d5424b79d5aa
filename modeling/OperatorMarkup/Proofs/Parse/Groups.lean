import OperatorMarkup.Proofs.Parse.Formation
import OperatorMarkup.Proofs.Tree.Nodes
import OperatorMarkup.Proofs.Tree.Shapes

/-!
# The groups that nodes come from

Building keeps the operands of a group as they are, but for an indented part, which takes the
lines of its body and may lie inside of its head.  So a node whose operands stand side by side,
or line by line, is that of one group, and what stands at its edges is what stands there in the
sequence.
-/

namespace OperatorMarkup

open Grouping Grouping.Tree Operator

variable {lexicon : Lexicon} {source : Source} {operators : List Operator}
  {operands : List (Tree Token Operator)} {tree : Tree Token Operator}

theorem Grouping.Tree.buildAll_of_forall₂ {α ο ν : Type} {grammar : Grammar (Except Error) α ο ν}
    {trees : List (Grouping.Tree α ο)} {nodes : List ν}
    (each : List.Forall₂ (fun tree node => tree.build grammar = .ok node) trees nodes) :
    buildAll grammar trees = .ok nodes := by
  induction each with
  | nil => rfl
  | cons first _ ih => exact buildAll_cons_eq_ok_iff.mpr ⟨_, _, first, ih, rfl⟩

/-- What is related to three values in a row is three others. -/
theorem exists_of_forall₂_triple {α β : Type} {holds : α → β → Prop} {x y z : α} {others : List β}
    (each : List.Forall₂ holds [x, y, z] others) :
    ∃ a b c, others = [a, b, c] ∧ holds x a ∧ holds y b ∧ holds z c := by
  obtain _ | ⟨first, _ | ⟨second, _ | ⟨third, _ | _⟩⟩⟩ := each
  exact ⟨_, _, _, rfl, first, second, third⟩

/-- A group is built from nodes of its operands. -/
theorem Node.exists_built {node : Node}
    (build_eq : (Tree.group operators operands).build (Node.nodeGrammar source) = .ok node) :
    ∃ parts, List.Forall₂ (fun operand part =>
        operand.build (Node.nodeGrammar source) = .ok part) operands parts ∧
      Node.ofGroup operators parts = .ok node := by
  obtain ⟨parts, parts_eq, node_eq⟩ := Except.bind_eq_ok_iff.mp build_eq
  refine ⟨parts, ?_, node_eq⟩
  clear build_eq node_eq
  induction operands generalizing parts with
  | nil =>
      cases parts_eq
      exact .nil
  | cons operand operands ih =>
      obtain ⟨part, others, first, rest, rfl⟩ := buildAll_cons_eq_ok_iff.mp parts_eq
      exact .cons first (ih others rest)

theorem Formed.shaped {nodes : List Node} {node : Node}
    (formed : Formed lexicon source operators operands)
    (build_eq : Node.ofGroup operators nodes = .ok node) : Node.Shaped operators nodes node :=
  Node.ofGroup_shaped formed.fits formed.turns formed.level formed.makeup build_eq

namespace Node

variable {parts : List Node} {node inner head body tail : Node} {span : Span}

/-! ## Building -/

section Induction

variable {holds : List Operator → List (Tree Token Operator) → Prop}
  {motive : Tree Token Operator → Node → Prop}

/-- What relates the operands of each group to their nodes, where something holds of the group,
and then the group to its own, relates a tree to the node that is built from it. -/
theorem build_every_induction (leaf : ∀ token, motive (.leaf token) (ofToken source token))
    (group : ∀ operators operands nodes node, holds operators operands →
      List.Forall₂ (fun operand node => operand.build (nodeGrammar source) = .ok node) operands
        nodes →
      List.Forall₂ motive operands nodes → ofGroup operators nodes = .ok node →
        motive (.group operators operands) node)
    (every : tree.Every holds) (build_eq : tree.build (nodeGrammar source) = .ok node) :
    motive tree node := by
  refine (build_induction (motive := fun tree node =>
    tree.build (nodeGrammar source) = .ok node ∧ (tree.Every holds → motive tree node))
    ?_ ?_ tree build_eq).2 every
  · exact fun token => ⟨rfl, fun _ => leaf token⟩
  · intro operators operands nodes node each node_eq
    have built := each.imp fun _ _ both => both.1
    refine ⟨?_, fun every => ?_⟩
    · rw [Tree.build, buildAll_of_forall₂ built]
      exact node_eq
    · rw [every_group_iff] at every
      refine group operators operands nodes node every.1 built ?_ node_eq
      have within := every.2
      clear every built node_eq build_eq
      induction each with
      | nil => exact .nil
      | cons first _ ih =>
          rw [List.forall_mem_cons] at within
          exact .cons (first.2 within.1) (ih within.2)

end Induction

/-! ## Indented parts -/

theorem nodes_block (tag : Tag) (lines : List Node) (span : Span) :
    (block tag lines span).nodes = block tag lines span :: lines.flatMap nodes :=
  nodes_eq _

/-- The lines of a body have its nodes, but for the paragraph that they may be of. -/
theorem nodes_bodyLines (body : Node) :
    (bodyLines body).flatMap nodes = body.nodes ∨
      body.isBlock .paragraph = true ∧ body.nodes = body :: (bodyLines body).flatMap nodes := by
  rcases bodyLines_cases body with lines_eq | ⟨wide, lines, place, rfl, lines_eq⟩
  · rw [lines_eq, List.flatMap_singleton]
    exact .inl rfl
  · rw [lines_eq]
    exact .inr ⟨rfl, nodes_eq _⟩

/-- What no paragraph is, the lines of a body are where its nodes are. -/
theorem filter_nodes_bodyLines {holds : Node → Bool}
    (other : body.isBlock .paragraph = true → holds body = false) :
    ((bodyLines body).flatMap nodes).filter holds = body.nodes.filter holds := by
  rcases nodes_bodyLines body with same | ⟨isParagraph, nodes_eq⟩
  · rw [same]
  · rw [nodes_eq, List.filter_cons_of_neg (by simp [other isParagraph])]

/-- The first line of an indented part is the head, or the last operand of the head. -/
inductive FirstLine (head : Node) : Node → Prop
  | head : FirstLine head head
  | last {tag : Tag} {wide : Bool} {before : List Node} {last : Node} {place : Place}
      (named : tag ≠ .empty) (head_eq : head = .group .inline tag wide (before ++ [last]) place) :
      FirstLine head last

/-- The nodes of an indented part are those of its three operands, but for one block with the
lines, and for a head that has its last operand replaced by that block. -/
theorem mem_nodes_indentBlock (member : inner ∈ (indentBlock operators span head body tail).nodes) :
    (∃ first span, FirstLine head first ∧
        inner = block .indented (first :: bodyLines body ++ [tail]) span) ∨
      (∃ tag wide children place, tag ≠ .empty ∧ inner = .group .inline tag wide children place) ∨
      inner ∈ head.nodes ∨ inner ∈ body.nodes ∨ inner ∈ tail.nodes := by
  have behind : inner ∈ (bodyLines body ++ [tail]).flatMap nodes →
      inner ∈ body.nodes ∨ inner ∈ tail.nodes := by
    intro later
    rw [List.flatMap_append, List.flatMap_singleton, List.mem_append] at later
    refine later.imp_left fun line => ?_
    rcases nodes_bodyLines body with same | ⟨-, nodes_eq⟩
    · exact same ▸ line
    · rw [nodes_eq]
      exact List.mem_cons_of_mem _ line
  rcases indentBlock_cases operators span head body tail with
    block_eq | ⟨tag, wide, before, last, place, named, rfl, block_eq⟩
  · rw [block_eq, List.cons_append, nodes_block, List.flatMap_cons, List.mem_cons,
      List.mem_append] at member
    rcases member with rfl | first | later
    · exact .inl ⟨_, _, .head, rfl⟩
    · exact .inr (.inr (.inl first))
    · exact .inr (.inr (.inr (behind later)))
  · rw [block_eq, nodes_eq, List.mem_cons, children, List.flatMap_append, List.flatMap_singleton,
      List.cons_append, nodes_block, List.flatMap_cons, List.mem_append, List.mem_cons,
      List.mem_append] at member
    rcases member with rfl | earlier | rfl | inside | later
    · exact .inr (.inl ⟨_, _, _, _, named, rfl⟩)
    · refine .inr (.inr (.inl ?_))
      rw [nodes_eq, children, List.flatMap_append]
      exact List.mem_cons_of_mem _ (List.mem_append_left _ earlier)
    · exact .inl ⟨_, _, .last named rfl, rfl⟩
    · refine .inr (.inr (.inl ?_))
      rw [nodes_eq, children, List.flatMap_append, List.flatMap_singleton]
      exact List.mem_cons_of_mem _ (List.mem_append_right _ inside)
    · exact .inr (.inr (.inr (behind later)))

/-! ## Joined operands -/

/-- What the operators of joined operands are, given their node. -/
structure JoinedBy (node : Node) (op : Operator) : Prop where
  isJoint : op.token.isJoint = true
  line : node.isBlock .paragraph = true → op.token.gapHeight = 1
  blank : node.isBlock .blank = true → 2 ≤ op.token.gapHeight

/-- A group whose node holds joined operands is one of joints. -/
theorem Shaped.joined (shaped : Shaped operators parts node) (isJoined : node.isJoined = true) :
    node.children = parts ∧ ∀ op ∈ operators, node.JoinedBy op := by
  cases shaped with
  | pair => simp [Node.isJoined, Tag.empty] at isJoined
  | @indented _ _ head body tail _ _ _ _ span =>
      rcases indentBlock_cases operators span head body tail with
        block_eq | ⟨tag, wide, before, last, place, named, rfl, block_eq⟩
      · simp [block_eq, block, Node.isJoined, Tag.indented, Tag.paragraph, Tag.blank] at isJoined
      · simp [block_eq, Node.isJoined, named] at isJoined
  | paragraph lines => exact ⟨rfl, fun op member =>
      ⟨(lines op member).1, fun _ => (lines op member).2,
        fun other => absurd other Bool.false_ne_true⟩⟩
  | blank lines => exact ⟨rfl, fun op member =>
      ⟨(lines op member).1, fun other => absurd other Bool.false_ne_true,
        fun _ => (lines op member).2⟩⟩
  | juxtaposed joints => exact ⟨rfl, fun op member =>
      ⟨joints op member, fun other => absurd other Bool.false_ne_true,
        fun other => absurd other Bool.false_ne_true⟩⟩
  | @named form text _ nonempty long =>
      cases form with
      | inline => simp [Node.isJoined, Tag.empty, nonempty] at isJoined
      | block =>
          rw [Node.isJoined, Bool.or_eq_true, beq_iff_eq, beq_iff_eq] at isJoined
          rcases isJoined with tag_eq | tag_eq <;> cases tag_eq <;>
            exact absurd (long rfl) (by decide)

theorem lexeme_ne_of_isJoint {op : Operator} (isJoint : op.token.isJoint = true) :
    op.token.lexeme ≠ .indent := by
  rcases (Token.isJoint_iff _).mp isJoint with lexeme_eq | lexeme_eq <;> rw [lexeme_eq] <;> decide

/-- A group that is not of an indent and its dedent holds its operands as they are, and is no
block of an indented part. -/
theorem Shaped.children_or_indented (shaped : Shaped operators parts node) :
    (node.children = parts ∧ node.isBlock .indented = false ∧
      ∀ op ∈ operators, op.token.lexeme ≠ .indent) ∨ ∃ indent dedent head body tail span,
      operators = [indent, dedent] ∧ indent.token.lexeme = .indent ∧
        dedent.token.lexeme = .dedent ∧ parts = [head, body, tail] ∧
        node = indentBlock operators span head body tail := by
  cases shaped with
  | indented operators_eq indent_eq dedent_eq operands_eq span =>
      exact .inr ⟨_, _, _, _, _, span, operators_eq, indent_eq, dedent_eq, operands_eq, rfl⟩
  | pair operators_eq opener_eq closer_eq =>
      refine .inl ⟨rfl, rfl, ?_⟩
      rw [operators_eq]
      simp [opener_eq, closer_eq]
  | paragraph lines => exact .inl ⟨rfl, rfl, fun op member =>
      lexeme_ne_of_isJoint (lines op member).1⟩
  | blank lines => exact .inl ⟨rfl, rfl, fun op member =>
      lexeme_ne_of_isJoint (lines op member).1⟩
  | juxtaposed joints => exact .inl ⟨rfl, rfl, fun op member =>
      lexeme_ne_of_isJoint (joints op member)⟩
  | @named form text plain _ long =>
      refine .inl ⟨rfl, ?_, fun op member indent_eq => ?_⟩
      · cases form with
        | inline => rfl
        | block =>
            refine beq_eq_false_iff_ne.mpr fun tag_eq => ?_
            cases tag_eq
            exact absurd (long rfl) (by decide)
      · have other := plain op member
        rw [indent_eq] at other
        contradiction

theorem isJoined_ofToken (source : Source) (token : Token) :
    (ofToken source token).isJoined = false := by
  rw [ofToken]
  split <;> rfl

theorem isVoid_ofToken (source : Source) (token : Token) :
    (ofToken source token).isVoid = decide (token.kind = .void) := by
  rw [ofToken]
  split <;> simp_all [isVoid]

theorem children_ofToken (source : Source) (token : Token) :
    (ofToken source token).children = [] := by
  rw [ofToken]
  split <;> rfl

/-- The operands of a node are built from those of a group of joints. -/
structure JoinsParts (lexicon : Lexicon) (source : Source) (operators : List Operator)
    (operands : List (Tree Token Operator)) (node : Node) : Prop where
  formed : Formed lexicon source operators operands
  within : ∀ operand ∈ operands, operand.Every (Formed lexicon source)
  built : List.Forall₂ (fun operand part => operand.build (nodeGrammar source) = .ok part) operands
    node.children
  joints : ∀ op ∈ operators, node.JoinedBy op

/-- The nodes of a built tree are those of its tokens and of the groups that hold their operands
as they are, and for an indented part the block of its lines and a head that has this block as its
last operand. -/
theorem forall_nodes_of_build {holds : Node → Prop} (leaf : ∀ token, holds (ofToken source token))
    (own : ∀ (operators : List Operator) (operands : List (Tree Token Operator)) (node : Node),
      Formed lexicon source operators operands →
      (∀ operand ∈ operands, operand.Every (Formed lexicon source)) →
      List.Forall₂ (fun operand part => operand.build (nodeGrammar source) = .ok part) operands
        node.children →
      Shaped operators node.children node → node.isBlock .indented = false → holds node)
    (lines : ∀ (indent dedent : Operator) (operands : List (Tree Token Operator))
      (head body tail first : Node) (span : Span), Formed lexicon source [indent, dedent] operands →
      (∀ operand ∈ operands, operand.Every (Formed lexicon source)) →
      indent.token.lexeme = .indent → dedent.token.lexeme = .dedent →
      List.Forall₂ (fun operand part => operand.build (nodeGrammar source) = .ok part) operands
        [head, body, tail] →
      FirstLine head first → holds (block .indented (first :: bodyLines body ++ [tail]) span))
    (spliced : ∀ tag wide children place, tag ≠ .empty →
      holds (group .inline tag wide children place))
    (every : tree.Every (Formed lexicon source))
    (build_eq : tree.build (nodeGrammar source) = .ok node) :
    ∀ inner ∈ node.nodes, holds inner := by
  refine build_every_induction (motive := fun _ node => ∀ inner ∈ node.nodes, holds inner) ?_ ?_
    every.hereditary build_eq
  · intro token inner member
    rw [nodes_eq, children_ofToken, List.flatMap_nil, List.mem_singleton] at member
    exact member ▸ leaf token
  · intro operators operands parts node here built ih node_eq inner member
    obtain ⟨formed, within⟩ := here
    have deeper : ∀ part ∈ parts, inner ∈ part.nodes → holds inner := by
      intro part partMember inside
      obtain ⟨operand, -, all⟩ := exists_of_mem_forall₂ ih partMember
      exact all inner inside
    have shaped := formed.shaped node_eq
    rcases shaped.children_or_indented with
      ⟨rfl, plain, -⟩ | ⟨_, _, head, body, tail, span, rfl, indent_eq, dedent_eq, rfl, rfl⟩
    · rw [nodes_eq, List.mem_cons, List.mem_flatMap] at member
      rcases member with rfl | ⟨part, partMember, inside⟩
      · exact own operators operands inner formed within built shaped plain
      · exact deeper part partMember inside
    · rcases mem_nodes_indentBlock member with
        ⟨first, span, firstLine, rfl⟩ | ⟨tag, wide, children, place, named, rfl⟩ | inside | inside |
          inside
      · exact lines _ _ _ _ _ _ _ span formed within indent_eq dedent_eq built firstLine
      · exact spliced tag wide children place named
      · exact deeper head (by simp) inside
      · exact deeper body (by simp) inside
      · exact deeper tail (by simp) inside

/-- A node with joined operands is that of a group in the tree that the text groups to. -/
theorem exists_joinsParts (every : tree.Every (Formed lexicon source))
    (build_eq : tree.build (nodeGrammar source) = .ok node) :
    ∀ inner ∈ node.nodes, inner.isJoined = true →
      ∃ operators operands, inner.JoinsParts lexicon source operators operands := by
  refine forall_nodes_of_build ?_ ?_ ?_ ?_ every build_eq
  · intro token isJoined
    rw [isJoined_ofToken] at isJoined
    contradiction
  · intro operators operands inner formed within built shaped _ isJoined
    exact ⟨operators, operands, formed, within, built, (shaped.joined isJoined).2⟩
  · intros
    contradiction
  · intro tag wide children place named isJoined
    rw [Node.isJoined, beq_eq_false_iff_ne.mpr named] at isJoined
    contradiction

/-! ## Left edges -/

theorem leftEdge_ofToken (source : Source) (token : Token) :
    (ofToken source token).leftEdge source = ((ofToken source token).offered source).1 := by
  rw [ofToken]
  split <;> rfl

theorem leftEdge_of_children {first : Node} {rest : List Node}
    (children_eq : node.children = first :: rest) :
    node.leftEdge source = first.leftEdge source := by
  cases node with
  | group form tag wide children place =>
      obtain rfl : children = first :: rest := children_eq
      rfl
  | _ => contradiction

theorem leftEdge_indentBlock :
    (indentBlock operators span head body tail).leftEdge source = head.leftEdge source := by
  rcases indentBlock_cases operators span head body tail with
    block_eq | ⟨tag, wide, before, last, place, named, rfl, block_eq⟩
  · rw [block_eq]
    rfl
  · rw [block_eq]
    cases before <;> rfl

/-- The left edge of a node is that of the first operand of its tree. -/
theorem leftEdge_of_build (every : tree.Every (Formed lexicon source))
    (build_eq : tree.build (nodeGrammar source) = .ok node) :
    ∀ token, tree.elements.head? = some (.operand token) →
      node.leftEdge source = ((ofToken source token).offered source).1 := by
  refine build_every_induction (motive := fun tree node =>
    ∀ token, tree.elements.head? = some (.operand token) →
      node.leftEdge source = ((ofToken source token).offered source).1) ?_ ?_ every build_eq
  · rintro token _ ⟨⟩
    exact leftEdge_ofToken source token
  · intro operators operands parts node formed built ih node_eq token head_eq
    obtain ⟨op, rest, rfl⟩ := List.exists_cons_of_ne_nil formed.ordered.nonempty
    obtain ⟨operand, others, rfl⟩ := List.exists_cons_of_length_eq_add_one formed.ordered.arity
    obtain ⟨first, more, here, -, rfl⟩ := List.forall₂_cons_left_iff.mp ih
    have first_eq : first.leftEdge source = ((ofToken source token).offered source).1 := by
      apply here
      rw [elements_group, elementsOf_cons] at head_eq
      cases elements_eq : operand.elements with
      | nil => simp [elements_eq] at head_eq
      | cons element elements => simpa [elements_eq] using head_eq
    rw [← first_eq]
    rcases (formed.shaped node_eq).children_or_indented with
      ⟨children_eq, -, -⟩ | ⟨_, _, head, body, tail, span, _, _, _, parts_eq, rfl⟩
    · exact leftEdge_of_children children_eq
    · obtain ⟨rfl, -⟩ := List.cons.inj parts_eq
      exact leftEdge_indentBlock

end Node

/-! ## Parsed trees -/

namespace Origin

variable {root node : Node}

open Node

theorem settledFrom (origin : Origin lexicon source root) :
    SettledFrom source root origin.node :=
  ⟨⟨true, true⟩, origin.root_eq.trans (congrArg Settled.node (settle_eq_settleRec _ _))⟩

/-- Every node of a parsed tree is a settled one of the tree before. -/
theorem exists_settledFrom (origin : Origin lexicon source root) (member : node ∈ root.nodes) :
    ∃ built ∈ origin.node.nodes, SettledFrom source node built :=
  exists_of_mem_forall₂ origin.settledFrom.nodes.flip member

/-- A node of a parsed tree with joined operands is the settled one of a group of joints. -/
theorem exists_joinsParts (origin : Origin lexicon source root) (member : node ∈ root.nodes)
    (isJoined : node.isJoined = true) :
    ∃ built operators operands, SettledFrom source node built ∧
      built.JoinsParts lexicon source operators operands := by
  obtain ⟨built, builtMember, settled⟩ := origin.exists_settledFrom member
  have builtJoined : built.isJoined = true := by
    obtain ⟨owns, rfl⟩ := settled
    rwa [isJoined_settleRec] at isJoined
  obtain ⟨operators, operands, joins⟩ := Node.exists_joinsParts origin.formed
    origin.groups.build_eq built builtMember builtJoined
  exact ⟨built, operators, operands, settled, joins⟩

end Origin

end OperatorMarkup
