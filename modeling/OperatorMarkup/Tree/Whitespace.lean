import OperatorMarkup.Tree.Basic

/-!
# Who owns whitespace

Whitespace moves outward, to the largest node that starts or ends with it.  The
first operand of a group does not own its left edge and the last one does not
own its right edge; what they hand on is offered to the group.

The recursion over the tree says who owns what; the running pass keeps the
nodes that it is inside of on a stack.
-/

namespace OperatorMarkup

/-- Which edges of a node keep the whitespace offered there. -/
structure Ownership where
  /-- The left edge does. -/
  left : Bool
  /-- The right edge does. -/
  right : Bool
  deriving DecidableEq, Repr

/-- A node whose whitespace is settled, with what its edges hand on. -/
structure Settled where
  /-- The node. -/
  node : Node
  /-- The whitespace handed on by the left edge. -/
  left : String
  /-- The whitespace handed on by the right edge. -/
  right : String
  deriving BEq, Repr

namespace Ownership

/-- Ownership of an operand of a group, given whether it is the first and
whether it is the last. -/
def ofOperand (isFirst isLast : Bool) : Ownership :=
  ⟨!isFirst, !isLast⟩

/-- What the edges of a node hand on of the whitespace offered to them. -/
def handedOn (owns : Ownership) (left right : String) : String × String :=
  (if owns.left then "" else left, if owns.right then "" else right)

/-- The place of a node that keeps what its edges own and leaves the rest. -/
def settle (owns : Ownership) (left right : String) (place : Place) : Place :=
  let handed := owns.handedOn left right
  { span := .between (place.span.start + handed.1.utf8ByteSize)
      (place.span.stop - handed.2.utf8ByteSize)
    left := if owns.left then left else ""
    right := if owns.right then right else "" }

/-- A node with the whitespace offered to its edges settled. -/
def settleNode (owns : Ownership) (node : Node) (left right : String) : Settled :=
  let handed := owns.handedOn left right
  ⟨node.withPlace (owns.settle left right node.place), handed.1, handed.2⟩

end Ownership

namespace Node

/-- What the edges of a node without operands are offered: all that a void
covers on its left, and else the whitespace around its text. -/
def offered (source : Source) : Node → String × String
  | void place => (source.slice place.span, "")
  | nullary _ place | leaf _ place => (place.left, place.right)
  | group _ _ _ _ _ => ("", "")

/-! ## By recursion -/

mutual

/-- Settle the whitespace of a tree. -/
def settleRec (source : Source) : Node → Ownership → Settled
  | group form tag wide children place, owns =>
      let settled := settleOperands source true children
      owns.settleNode (group form tag wide settled.1 place) settled.2.1 settled.2.2
  | node, owns =>
      let offer := node.offered source
      owns.settleNode node offer.1 offer.2

/-- Settle some operands, the first of which may be that of its group.  The left
edge of the first and the right edge of the last hand on. -/
def settleOperands (source : Source) (isFirst : Bool) : List Node → List Node × String × String
  | [] => ([], "", "")
  | child :: rest =>
      let settled := settleRec source child (.ofOperand isFirst rest.isEmpty)
      let others := settleOperands source false rest
      (settled.node :: others.1, settled.left,
        if rest.isEmpty then settled.right else others.2.2)

end

/-! ## With a stack -/

/-- The same node over other operands. -/
def withChildren (children : List Node) : Node → Node
  | group form tag wide _ place => group form tag wide children place
  | node => node

/-- A node whose operands are being settled. -/
structure Entered where
  /-- The node, whose operands are taken out of it. -/
  node : Node
  /-- What the node owns. -/
  owns : Ownership
  /-- The operands settled so far, latest first. -/
  settled : List Node
  /-- The operands that are still to be settled. -/
  pending : List Node
  /-- What the left edge of the first operand handed on. -/
  left : String
  /-- What the right edge of the last operand handed on. -/
  right : String

namespace Entered

/-- A node none of whose operands is settled. -/
def start (node : Node) (owns : Ownership) : Entered where
  node := node.withChildren []
  owns := owns
  settled := []
  pending := node.children
  left := ""
  right := ""

/-- The operand to be settled next, if there is one, with what it owns, and the node without
it. -/
def next? (entry : Entered) : Option (Node × Ownership × Entered) :=
  match entry.pending with
  | [] => none
  | operand :: pending =>
      let owns := .ofOperand entry.settled.isEmpty pending.isEmpty
      some (operand, owns, { entry with pending := pending })

/-- The node with one more operand settled. -/
def adopt (entry : Entered) (settled : Settled) : Entered :=
  { entry with
    settled := settled.node :: entry.settled
    left := if entry.settled.isEmpty then settled.left else entry.left
    right := if entry.pending.isEmpty then settled.right else entry.right }

/-- What the edges of the node are offered when its operands are settled. -/
def offered (source : Source) (entry : Entered) : String × String :=
  match entry.node with
  | group _ _ _ _ _ => (entry.left, entry.right)
  | node => node.offered source

/-- The node settled, when its operands are. -/
def leave (source : Source) (entry : Entered) : Settled :=
  let offer := entry.offered source
  entry.owns.settleNode (entry.node.withChildren entry.settled.reverse) offer.1 offer.2

theorem pending_of_next? {entry rest : Entered} {operand : Node} {owns : Ownership}
    (next_eq : entry.next? = some (operand, owns, rest)) :
    entry.pending = operand :: rest.pending := by
  rw [next?] at next_eq
  split at next_eq
  · contradiction
  · next pending_eq =>
      cases next_eq
      exact pending_eq

/-- A bound on the steps that the nodes of a stack still take. -/
def work : List Entered → Nat
  | [] => 0
  | entry :: stack => 2 * sizeAll entry.pending + 1 + work stack

end Entered

/-- Settle the operands of a node, then the node, and then the nodes that it lies in.  A stack
always has a node on its top, which is given on its own. -/
def settleStack (source : Source) (entry : Entered) (stack : List Entered) : Settled :=
  match _next_eq : entry.next? with
  | some (operand, owns, entry) =>
      settleStack source (.start operand owns) (entry :: stack)
  | none =>
      match stack with
      | [] => entry.leave source
      | parent :: stack => settleStack source (parent.adopt (entry.leave source)) stack
termination_by Entered.work (entry :: stack)
decreasing_by
  · have := size_eq operand
    simp only [Entered.work, Entered.start, Entered.pending_of_next? _next_eq, sizeAll_cons]
    omega
  · simp only [Entered.work, Entered.adopt]
    omega

/-- Settle the whitespace of a tree. -/
def settle (source : Source) (node : Node) (owns : Ownership) : Settled :=
  settleStack source (.start node owns) []

end Node

end OperatorMarkup
