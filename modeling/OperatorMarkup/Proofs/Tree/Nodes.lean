import OperatorMarkup.Proofs.Tree.Build
import OperatorMarkup.Proofs.Tree.Edges
import OperatorMarkup.Tree.Walk

/-!
# The nodes of a tree

A walk over a tree comes to a node before the nodes of its operands.  Settling whitespace
changes no node but for its place, so the nodes of a settled tree are those of the tree, each
of them settled.
-/

namespace OperatorMarkup

namespace Node

mutual

/-- The nodes of a tree, each before those of its operands. -/
def nodes : Node → List Node
  | group form tag wide children place => group form tag wide children place :: nodesAll children
  | node => [node]

/-- The nodes of some trees in order. -/
def nodesAll : List Node → List Node
  | [] => []
  | child :: rest => nodes child ++ nodesAll rest

end

/-- Whether a node is a block with a tag. -/
def isBlock (tag : Tag) : Node → Bool
  | group .block other _ _ _ => other == tag
  | _ => false

/-- Whether a node holds operands side by side, or line by line. -/
def isJoined : Node → Bool
  | group .inline tag _ _ _ => tag == .empty
  | group .block tag _ _ _ => tag == .paragraph || tag == .blank
  | _ => false

variable {source : Source} {node child inner root : Node} {owns : Ownership}

/-- Paragraphs and blank blocks hold their operands line by line. -/
theorem isJoined_of_isBlock {tag : Tag} (lines : tag ∈ [Tag.paragraph, .blank])
    (isBlock : node.isBlock tag = true) : node.isJoined = true := by
  simp only [List.mem_cons, List.not_mem_nil, or_false] at lines
  cases node with
  | group form other wide children place =>
      cases form with
      | inline => contradiction
      | block =>
          obtain rfl : other = tag := beq_iff_eq.mp isBlock
          rw [isJoined, Bool.or_eq_true, beq_iff_eq, beq_iff_eq]
          exact lines
  | _ => contradiction

theorem isBlock_eq_false_of_isBlock {tag other : Tag} (isBlock : node.isBlock tag = true)
    (differ : tag ≠ other) : node.isBlock other = false := by
  cases node with
  | group form own =>
      cases form with
      | inline => rfl
      | block =>
          obtain rfl : own = tag := beq_iff_eq.mp isBlock
          exact beq_eq_false_iff_ne.mpr differ
  | _ => rfl

theorem nodesAll_eq_flatMap (trees : List Node) : nodesAll trees = trees.flatMap nodes := by
  induction trees with
  | nil => rfl
  | cons child rest ih => rw [nodesAll, ih, List.flatMap_cons]

theorem nodes_eq (node : Node) : node.nodes = node :: node.children.flatMap nodes := by
  cases node with
  | group form tag wide children place =>
      rw [nodes, nodesAll_eq_flatMap]
      rfl
  | _ => rfl

theorem map_snd_preorderOnto (listed pending : List (Nat × Node)) :
    (preorderOnto listed pending).map Prod.snd =
      listed.reverse.map Prod.snd ++ (pending.map Prod.snd).flatMap nodes := by
  induction listed, pending using preorderOnto.induct with
  | case1 listed => simp [preorderOnto]
  | case2 listed depth node rest ih =>
      rw [preorderOnto, ih]
      simp [nodes_eq node, Function.comp_def]

/-- A walk comes to the nodes of a tree in order. -/
theorem map_snd_preorder (node : Node) : node.preorder.map Prod.snd = node.nodes := by
  simp [preorder, map_snd_preorderOnto]

theorem mem_nodes_self (node : Node) : node ∈ node.nodes := by
  rw [nodes_eq]
  exact List.mem_cons_self

theorem OccursIn.trans (within : inner.OccursIn node) (occurs : node.OccursIn root) :
    inner.OccursIn root := by
  induction within with
  | root node => exact occurs
  | child _ member ih => exact .child (ih occurs) member

/-- The nodes of a tree are those that occur in it. -/
theorem mem_nodes_iff : node ∈ root.nodes ↔ node.OccursIn root := by
  induction root using Node.induction with
  | step root ih =>
      rw [nodes_eq, List.mem_cons, List.mem_flatMap]
      constructor
      · rintro (rfl | ⟨child, member, within⟩)
        · exact .root node
        · exact ((ih child member).mp within).trans (.child (.root root) member)
      · intro occurs
        refine occurs.root_or_child.imp_right ?_
        rintro ⟨child, member, within⟩
        exact ⟨child, member, (ih child member).mpr within⟩

/-! ## Settled nodes -/

theorem children_settleRec (node : Node) (owns : Ownership) :
    (settleRec source node owns).node.children = (settleOperands source true node.children).1 := by
  cases node <;> simp [settleRec, Ownership.settleNode, settleOperands, Node.children, withPlace]

theorem isVoid_settleRec (node : Node) (owns : Ownership) :
    (settleRec source node owns).node.isVoid = node.isVoid := by
  cases node <;> rfl

theorem isBlock_settleRec (tag : Tag) (node : Node) (owns : Ownership) :
    (settleRec source node owns).node.isBlock tag = node.isBlock tag := by
  cases node with
  | group form => cases form <;> rfl
  | _ => rfl

theorem isJoined_settleRec (node : Node) (owns : Ownership) :
    (settleRec source node owns).node.isJoined = node.isJoined := by
  cases node with
  | group form => cases form <;> rfl
  | _ => rfl

/-- A node is another one with its whitespace settled. -/
def SettledFrom (source : Source) (settled node : Node) : Prop :=
  ∃ owns, settled = (settleRec source node owns).node

theorem settleOperands_settledFrom (isFirst : Bool) (operands : List Node) :
    List.Forall₂ (SettledFrom source) (settleOperands source isFirst operands).1 operands := by
  induction operands generalizing isFirst with
  | nil => exact .nil
  | cons operand operands ih => exact .cons ⟨_, rfl⟩ (ih false)

theorem SettledFrom.children {settled : Node} (settles : SettledFrom source settled node) :
    List.Forall₂ (SettledFrom source) settled.children node.children := by
  obtain ⟨owns, rfl⟩ := settles
  rw [children_settleRec]
  exact settleOperands_settledFrom true node.children

/-- The nodes of a settled tree are those of the tree, each of them settled. -/
theorem SettledFrom.nodes {settled : Node} (settles : SettledFrom source settled node) :
    List.Forall₂ (SettledFrom source) settled.nodes node.nodes := by
  induction node using Node.induction generalizing settled with
  | step node ih =>
      rw [nodes_eq settled, nodes_eq node]
      refine .cons settles ?_
      have operands := settles.children
      generalize settled.children = others at operands
      generalize node.children = children at ih operands
      induction operands with
      | nil => exact .nil
      | cons first _ rest =>
          rw [List.forall_mem_cons] at ih
          exact List.rel_append (ih.1 first) (rest ih.2)

theorem map_eq_of_forall₂ {α β γ : Type} {left : α → γ} {right : β → γ} {first : List α}
    {second : List β} (each : List.Forall₂ (fun x y => left x = right y) first second) :
    first.map left = second.map right := by
  induction each with
  | nil => rfl
  | cons same _ ih => rw [List.map_cons, List.map_cons, same, ih]

/-- What settling does not change about nodes is the same for settled nodes in a row. -/
theorem map_eq_of_settledFrom {β : Type} {view : Node → β} {settled trees : List Node}
    (same : ∀ node owns, view (settleRec source node owns).node = view node)
    (each : List.Forall₂ (SettledFrom source) settled trees) :
    settled.map view = trees.map view := by
  refine map_eq_of_forall₂ (each.imp ?_)
  rintro _ node ⟨owns, rfl⟩
  exact same node owns

/-! ## Left edges -/

mutual

/-- The whitespace at the left edge of a tree, which its first leaf is offered. -/
def leftEdge (source : Source) : Node → String
  | group _ _ _ children _ => leftEdgeAll source children
  | node => (node.offered source).1

/-- The whitespace at the left edge of the first one of some trees. -/
def leftEdgeAll (source : Source) : List Node → String
  | [] => ""
  | child :: _ => leftEdge source child

end

theorem settleNode_left (owns : Ownership) (node : Node) (left right : String) :
    (owns.settleNode node left right).node.place.left = (if owns.left then left else "") ∧
      (owns.settleNode node left right).left = if owns.left then "" else left := by
  simp [Ownership.settleNode, Ownership.handedOn, Ownership.settle]

/-- The left edge of a node keeps the whitespace there, or hands it on. -/
theorem settleRec_left (node : Node) (owns : Ownership) :
    (settleRec source node owns).node.place.left =
        (if owns.left then node.leftEdge source else "") ∧
      (settleRec source node owns).left = if owns.left then "" else node.leftEdge source := by
  induction node using Node.induction generalizing owns with
  | step node ih =>
      cases node with
      | group form tag wide children place =>
          cases children with
          | nil => exact settleNode_left owns _ "" _
          | cons child children =>
              have first := (ih child List.mem_cons_self (.ofOperand true children.isEmpty)).2
              rw [settleRec, settleOperands, leftEdge, leftEdgeAll, first]
              exact settleNode_left owns _ _ _
      | _ => exact settleNode_left owns _ _ _

/-- An operand of a group behind its first one owns the whitespace before it. -/
theorem SettledFrom.left_of_tail {settled : Node} (settles : SettledFrom source settled node) :
    List.Forall₂ (fun child operand => child.place.left = operand.leftEdge source)
      settled.children.tail node.children.tail := by
  obtain ⟨owns, rfl⟩ := settles
  rw [children_settleRec]
  cases node.children with
  | nil => exact .nil
  | cons first operands =>
      rw [settleOperands, List.tail_cons, List.tail_cons]
      induction operands with
      | nil => exact .nil
      | cons operand operands ih =>
          refine .cons ?_ ih
          exact (settleRec_left operand _).1

end Node

end OperatorMarkup
