import OperatorMarkup.Tree.Basic

/-!
# Trees as s-expressions

A group is written in brackets, its tag first and each operand behind a space.
The recursion over the tree says what is written; the running printer keeps the
trees and texts still to be written on a stack, because trees get as deep as a
text is long.
-/

namespace OperatorMarkup

namespace Node

/-- The text of a node without operands, and of a group up to its tag. -/
def head : Node → String
  | void _ => "∅"
  | nullary text _ | leaf text _ => text
  | group form tag _ _ _ => form.opening ++ tag.display

mutual

/-- The s-expression of a tree. -/
def sexp : Node → String
  | group form tag wide children place =>
      (group form tag wide children place).head ++ sexpAll children ++ form.closing
  | node => node.head

/-- The s-expressions of some trees, each behind a space. -/
def sexpAll : List Node → String
  | [] => ""
  | child :: rest => " " ++ sexp child ++ sexpAll rest

end

@[simp]
theorem sexp_void (place : Place) : (void place).sexp = "∅" :=
  rfl

@[simp]
theorem sexp_nullary (text : String) (place : Place) : (nullary text place).sexp = text :=
  rfl

@[simp]
theorem sexp_leaf (text : String) (place : Place) : (leaf text place).sexp = text :=
  rfl

theorem sexpAll_eq_join (operands : List Node) :
    sexpAll operands = String.join (operands.map fun operand => " " ++ operand.sexp) := by
  induction operands with
  | nil => rw [sexpAll, List.map_nil, String.join_nil]
  | cons operand operands ih => rw [sexpAll, ih, List.map_cons, String.join_cons]

/-- A group has its tag behind its opening bracket, its operands in order, and its closing
bracket. -/
theorem sexp_group (form : Form) (tag : Tag) (wide : Bool) (operands : List Node)
    (place : Place) :
    (group form tag wide operands place).sexp =
      form.opening ++ tag.display ++
        String.join (operands.map fun operand => " " ++ operand.sexp) ++ form.closing := by
  rw [sexp, head, sexpAll_eq_join]

/-! ## Printing with a stack -/

/-- What is still to be printed. -/
inductive Piece where
  /-- A tree. -/
  | tree (node : Node)
  /-- A text in front of a tree or behind it. -/
  | literal (text : String)

/-- Operands put on a stack, each below a space.  The last one is put there first, and so the
first one comes off first. -/
def pushOperands (operands : List Node) (stack : List Piece) : List Piece :=
  operands.reverse.foldl (fun stack operand => .literal " " :: .tree operand :: stack) stack

@[simp]
theorem pushOperands_nil (stack : List Piece) : pushOperands [] stack = stack :=
  rfl

@[simp]
theorem pushOperands_cons (operand : Node) (rest : List Node) (stack : List Piece) :
    pushOperands (operand :: rest) stack =
      .literal " " :: .tree operand :: pushOperands rest stack := by
  simp [pushOperands]

namespace Piece

/-- What is written when a piece is taken off a stack, and the stack that it leaves.  A group puts
its operands there, above its closing bracket. -/
def write (stack : List Piece) : Piece → String × List Piece
  | literal text => (text, stack)
  | tree (void _) => ("∅", stack)
  | tree (nullary text _) | tree (leaf text _) => (text, stack)
  | tree (group form tag _ operands _) =>
      (form.opening ++ tag.display, pushOperands operands (literal form.closing :: stack))

/-- The number of nodes that are still to be printed. -/
def sizeAll : List Piece → Nat
  | [] => 0
  | tree node :: stack => node.size + sizeAll stack
  | literal _ :: stack => sizeAll stack

theorem sizeAll_pushOperands (operands : List Node) (stack : List Piece) :
    sizeAll (pushOperands operands stack) = Node.sizeAll operands + sizeAll stack := by
  induction operands with
  | nil => simp
  | cons operand operands ih => simp [sizeAll, ih, Nat.add_assoc]

/-- A step takes a text off the stack, or a node off those that are still to be printed. -/
theorem write_lt (piece : Piece) (stack : List Piece) :
    Prod.Lex (· < ·) (· < ·) (sizeAll (piece.write stack).2, (piece.write stack).2.length)
      (sizeAll (piece :: stack), (piece :: stack).length) := by
  cases piece with
  | literal text => exact .right _ (Nat.lt_succ_self _)
  | tree node =>
      apply Prod.Lex.left
      rw [sizeAll, size_eq]
      cases node with
      | void | nullary | leaf => simp [write, children]
      | group form tag wide operands place =>
          simp only [write, sizeAll_pushOperands, sizeAll, children]
          omega

end Piece

/-- Print the pieces on a stack behind what is printed already. -/
def printStack (printed : String) : List Piece → String
  | [] => printed
  | piece :: stack =>
      let written := piece.write stack
      printStack (printed ++ written.1) written.2
termination_by stack => (Piece.sizeAll stack, stack.length)
decreasing_by exact piece.write_lt stack

/-- The text form of a tree. -/
def display (node : Node) : String :=
  printStack "" [.tree node]

end Node

end OperatorMarkup
