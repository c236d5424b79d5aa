import OperatorMarkup.Tree.Basic

/-!
# Signatures of nodes

A signature is what a pattern over trees looks at first: the sort of a node, its
tag, and which of its operands are there.
-/

namespace OperatorMarkup

/-- The sort of a node. -/
inductive NodeClass where
  /-- An operand that the text leaves out. -/
  | void
  /-- An operator that stands alone. -/
  | nullary
  /-- A word. -/
  | leaf
  /-- A group within lines. -/
  | inline
  /-- A group made of lines. -/
  | block
  deriving DecidableEq, Repr

/-- The sort of a node, its tag, and which of its operands are there. -/
structure Signature where
  /-- The sort. -/
  nodeClass : NodeClass
  /-- The tag of a group. -/
  tag : Option Tag
  /-- One flag for each operand, unset where it is left out. -/
  arguments : List Bool
  deriving DecidableEq, Repr

namespace Node

/-- The sort of a node. -/
def nodeClass : Node → NodeClass
  | void _ => .void
  | nullary _ _ => .nullary
  | leaf _ _ => .leaf
  | group .inline _ _ _ _ => .inline
  | group .block _ _ _ _ => .block

/-- The signature of a node. -/
def signature (node : Node) : Signature :=
  ⟨node.nodeClass, node.tag?, node.children.map fun child => !child.isVoid⟩

end Node

namespace Signature

/-- Number the values of a list by first appearance, with the values already
seen in order.  Errors are left as they are. -/
def number {ε α : Type} [BEq α] (seen : List α) : List (Except ε α) → List (Except ε Nat) × List α
  | [] => ([], seen)
  | .error error :: rest =>
      let numbered := number seen rest
      (.error error :: numbered.1, numbered.2)
  | .ok value :: rest =>
      let seen' := if seen.contains value then seen else seen ++ [value]
      let numbered := number seen' rest
      (.ok (seen'.idxOf value) :: numbered.1, numbered.2)

end Signature

end OperatorMarkup
