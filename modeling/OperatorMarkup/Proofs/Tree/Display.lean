import OperatorMarkup.Tree.Sexp

/-!
# Printed trees

A stack of pieces stands for a text: that of its pieces, one behind the other.  A step of the
printer writes what comes first in that text, and leaves a stack that stands for the rest.  So a
whole run writes all of it, and a tree that is alone on the stack is printed as its s-expression.
-/

namespace OperatorMarkup

namespace Node

namespace Piece

/-- The text that a piece stands for. -/
def rendering : Piece → String
  | tree node => node.sexp
  | literal text => text

/-- The text that a stack stands for. -/
def renderAll (stack : List Piece) : String :=
  String.join (stack.map rendering)

@[simp]
theorem renderAll_nil : renderAll [] = "" :=
  String.join_nil

@[simp]
theorem renderAll_tree (node : Node) (stack : List Piece) :
    renderAll (tree node :: stack) = node.sexp ++ renderAll stack :=
  String.join_cons

@[simp]
theorem renderAll_literal (text : String) (stack : List Piece) :
    renderAll (literal text :: stack) = text ++ renderAll stack :=
  String.join_cons

/-- Operands that are put on a stack come first there, each behind its space and in order. -/
theorem renderAll_pushOperands (operands : List Node) (stack : List Piece) :
    renderAll (pushOperands operands stack) =
      String.join (operands.map fun operand => " " ++ operand.sexp) ++ renderAll stack := by
  induction operands with
  | nil => simp
  | cons operand operands ih => simp [ih, String.append_assoc]

/-- What a step writes, with the text of the stack that it leaves behind it, is the text of the
stack that it found. -/
theorem renderAll_write (piece : Piece) (stack : List Piece) :
    (piece.write stack).1 ++ renderAll (piece.write stack).2 = renderAll (piece :: stack) := by
  cases piece with
  | literal text => rw [write, renderAll_literal]
  | tree node =>
      rw [renderAll_tree]
      cases node with
      | void place => rw [write, sexp_void]
      | nullary text place => rw [write, sexp_nullary]
      | leaf text place => rw [write, sexp_leaf]
      | group form tag wide operands place =>
          rw [write, renderAll_pushOperands, renderAll_literal, sexp_group]
          simp only [String.append_assoc]

end Piece

/-- A run writes the text of its stack behind what is printed already. -/
theorem printStack_eq (printed : String) (stack : List Piece) :
    printStack printed stack = printed ++ Piece.renderAll stack := by
  fun_induction printStack printed stack with
  | case1 printed => rw [Piece.renderAll_nil, String.append_empty]
  | case2 printed piece stack written ih =>
      calc
        printStack (printed ++ written.1) written.2 =
            printed ++ (written.1 ++ Piece.renderAll written.2) := by
          rw [ih, String.append_assoc]
        _ = printed ++ Piece.renderAll (piece :: stack) := by
          rw [Piece.renderAll_write]

theorem display_eq_sexp (node : Node) : node.display = node.sexp := by
  rw [display, printStack_eq, Piece.renderAll_tree, Piece.renderAll_nil, String.empty_append,
    String.append_empty]

/-- The printer with a stack prints every tree as its s-expression.  An operand left out is
printed as its sign, a word or an operator that stands alone as its text, and a group as its tag
behind an opening parenthesis or brace, its operands in order, each behind a space, and the one
that closes it.  A tag is written as its text, as an underscore where it has none, or as the two
delimiters of its pair. -/
theorem display_recursively (node : Node) :
    node.display = node.sexp ∧
      node.display =
        match node with
        | void _ => "∅"
        | nullary text _ | leaf text _ => text
        | group form tag _ operands _ =>
            (match form with
              | .inline => "("
              | .block => "\x7b") ++
              (match tag with
              | .single text => if text = "" then "_" else text
              | .pair opener closer => opener ++ closer) ++
              String.join (operands.map fun operand => " " ++ operand.display) ++
              (match form with
              | .inline => ")"
              | .block => "\x7d") := by
  constructor
  · exact display_eq_sexp node
  · simp only [display_eq_sexp]
    cases node with
    | void place => exact sexp_void place
    | nullary text place => exact sexp_nullary text place
    | leaf text place => exact sexp_leaf text place
    | group form tag wide operands place =>
        rw [sexp_group]
        cases form <;> cases tag <;> rfl

/-- Lines are in braces, and operands side by side have an underscore for their tag. -/
example (place : Place) :
    (group .block .paragraph true
      [group .inline (.single "+") false [leaf "a" place, void place] place,
        group .inline .empty true [leaf "b" place, nullary "-" place] place] place).display =
      "\x7bP (+ a ∅) (_ b -)\x7d" := by
  rw [display, printStack_eq]
  rfl

end Node

end OperatorMarkup
