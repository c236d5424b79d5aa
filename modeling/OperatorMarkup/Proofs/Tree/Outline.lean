import OperatorMarkup.Proofs.Tree.Whitespace
import OperatorMarkup.Tree.Build
import OperatorMarkup.Tree.Sexp

/-!
# Outlines of trees

The outline of a tree is the tree without the places of its nodes: their classes,
tags, texts and operands, and whether groups are wide where that is to be kept.  The
s-expression of a tree is that of its outline, and settling whitespace leaves the
outline alone.
-/

namespace OperatorMarkup

/-- The place of a node that has none. -/
def Place.none : Place where
  span := default

namespace Node

mutual

/-- A tree without places, and without the widths of its groups unless they are
kept. -/
def outline (keepsWide : Bool) : Node → Node
  | group form tag wide children _ =>
      group form tag (keepsWide && wide) (outlineAll keepsWide children) .none
  | node => node.withPlace .none

/-- Some trees without places. -/
def outlineAll (keepsWide : Bool) : List Node → List Node
  | [] => []
  | child :: rest => outline keepsWide child :: outlineAll keepsWide rest

end

variable {keepsWide : Bool} {source : Source} {node other : Node}

theorem outlineAll_eq_map (nodes : List Node) :
    outlineAll keepsWide nodes = nodes.map (outline keepsWide) := by
  induction nodes with
  | nil => rfl
  | cons node nodes ih => rw [outlineAll, ih, List.map_cons]

theorem outline_group (form : Form) (tag : Tag) (wide : Bool) (children : List Node)
    (place : Place) :
    (group form tag wide children place).outline keepsWide =
      group form tag (keepsWide && wide) (children.map (outline keepsWide)) .none := by
  rw [outline, outlineAll_eq_map]

@[simp]
theorem outline_withPlace (place : Place) (node : Node) :
    (node.withPlace place).outline keepsWide = node.outline keepsWide := by
  cases node <;> rfl

/-! ## S-expressions -/

/-- The s-expression of a tree is that of its outline. -/
theorem sexp_outline (keepsWide : Bool) (node : Node) :
    (node.outline keepsWide).sexp = node.sexp := by
  induction node using induction with
  | step node ih =>
      cases node with
      | void | nullary | leaf => rfl
      | group form tag wide operands place =>
          rw [children] at ih
          rw [outline_group, sexp_group, sexp_group, List.map_map]
          congr 3
          exact List.map_congr_left fun operand member => congrArg (" " ++ ·) (ih operand member)

theorem sexp_eq_of_outline_eq (same : node.outline keepsWide = other.outline keepsWide) :
    node.sexp = other.sexp := by
  rw [← sexp_outline keepsWide node, same, sexp_outline]

/-! ## Settled trees -/

theorem outline_settleOperands {nodes : List Node}
    (each : ∀ node ∈ nodes, ∀ owns,
      (settleRec source node owns).node.outline keepsWide = node.outline keepsWide)
    (isFirst : Bool) :
    (settleOperands source isFirst nodes).1.map (outline keepsWide) =
      nodes.map (outline keepsWide) := by
  induction nodes generalizing isFirst with
  | nil => rfl
  | cons node nodes ih =>
      rw [List.forall_mem_cons] at each
      rw [settleOperands, List.map_cons, List.map_cons, each.1, ih each.2]

/-- Settling whitespace changes places alone. -/
theorem outline_settle (source : Source) (node : Node) (owns : Ownership) :
    (node.settle source owns).node.outline keepsWide = node.outline keepsWide := by
  rw [settle_eq_settleRec]
  induction node using induction generalizing owns with
  | step node ih =>
      cases node with
      | void | nullary | leaf => rfl
      | group form tag wide operands place =>
          rw [children] at ih
          rw [settleRec, Ownership.settleNode, outline_withPlace, outline_group, outline_group,
            outline_settleOperands ih]

/-! ## Built trees -/

theorem outline_block (tag : Tag) (children : List Node) (span : Span) :
    (block tag children span).outline keepsWide =
      group .block tag keepsWide (children.map (outline keepsWide)) .none := by
  rw [block, outline_group, Bool.and_true]

/-- An outline is its own outline. -/
theorem outline_outline (keepsWide : Bool) (node : Node) :
    (node.outline keepsWide).outline keepsWide = node.outline keepsWide := by
  induction node using induction with
  | step node ih =>
      cases node with
      | void | nullary | leaf => rfl
      | group form tag wide operands place =>
          rw [children] at ih
          rw [outline_group, outline_group, ← Bool.and_assoc, Bool.and_self, List.map_map]
          congr 1
          exact List.map_congr_left ih

theorem outline_bodyLines (body : Node) :
    (bodyLines (body.outline keepsWide)).map (outline keepsWide) =
      (bodyLines body).map (outline keepsWide) := by
  have same := outline_outline keepsWide body
  cases body with
  | void | nullary | leaf => rfl
  | group form tag wide children place =>
      rw [outline_group] at same
      cases form with
      | inline => simpa [outline_group, bodyLines] using same
      | block =>
          rw [outline_group, bodyLines, bodyLines]
          split
          · rw [List.map_map]
            exact List.map_congr_left fun child _ => outline_outline _ child
          · simpa [outline_group] using same

/-- The outline of an indented part follows from those of its operands. -/
theorem outline_indentBlock (operators others : List Operator) (span place : Span)
    (head body tail : Node) :
    (indentBlock operators span head body tail).outline keepsWide =
      (indentBlock others place (head.outline keepsWide) (body.outline keepsWide)
        (tail.outline keepsWide)).outline keepsWide := by
  have asLine : ∀ head : Node,
      (block .indented (head :: bodyLines body ++ [tail]) span).outline keepsWide =
        (block .indented (head.outline keepsWide :: bodyLines (body.outline keepsWide) ++
          [tail.outline keepsWide]) place).outline keepsWide := by
    intro head
    simp [outline_block, outline_bodyLines, outline_outline]
  cases head with
  | void | nullary | leaf => exact asLine _
  | group form tag wide children inner =>
      cases form with
      | block => exact asLine _
      | inline =>
          have asLine := asLine (.group .inline tag wide children inner)
          rw [outline_group] at asLine ⊢
          simp only [indentBlock]
          split
          · exact asLine
          · rw [List.getLast?_map]
            cases children.getLast? with
            | none => exact asLine
            | some last =>
                simp [outline_group, outline_block, outline_bodyLines, outline_outline,
                  ← List.map_dropLast, Function.comp_def]

end Node

end OperatorMarkup
