import OperatorMarkup.Error

/-!
# Grouping by operator order

A sequence of operands and operators in turn is grouped by one question, asked
of a pending operator and the next one: does the first group end here, does a
new one start inside it, or do both belong to the same group.  Groups that are
still open lie on a stack; the operand just read is the right side of the
innermost one.

Everything else is up to a grammar over any monad, which may fail, keep a log,
or do neither.
-/

namespace OperatorMarkup

/-- How a pending operator relates to the next one. -/
inductive Decision where
  /-- The group of the pending operator ends before the next one. -/
  | left
  /-- The next operator starts a group inside that of the pending one. -/
  | right
  /-- Both operators belong to the same group. -/
  | aggregate
  deriving DecidableEq, Repr

/-- One element of a sequence to be grouped. -/
inductive Element (α ο : Type) where
  /-- An operand. -/
  | operand (value : α)
  /-- An operator. -/
  | operator (value : ο)
  deriving DecidableEq, Repr

/-- What grouping asks of a grammar with operands `α`, operators `ο` and nodes
`ν`. -/
structure Grammar (m : Type → Type) (α ο ν : Type) where
  /-- How a pending operator relates to the next one. -/
  order : ο → ο → m Decision
  /-- The node of an operand. -/
  leaf : α → m ν
  /-- The node of a group, given its operators and one more operand, each in
  order. -/
  node : List ο → List ν → m ν
  /-- Asked of an operator before it starts a group. -/
  mayStart : ο → m Unit
  /-- Asked of the last operator of a group that is open at the end. -/
  mayEnd : ο → m Unit

namespace Grouping

/-- A group that is still open. -/
structure Frame (ο ν : Type) where
  /-- Its last operator. -/
  last : ο
  /-- The operators before that one, latest first. -/
  earlier : List ο
  /-- The operands before the last operator, latest first. -/
  operands : List ν

/-- What the next element has to be, with the groups still open, innermost
first. -/
inductive State (ο ν : Type) where
  /-- An operand is due behind the last operator of the innermost group. -/
  | operandDue (stack : List (Frame ο ν))
  /-- An operator, or the end, is due behind an operand. -/
  | operatorDue (stack : List (Frame ο ν)) (current : ν)

namespace Frame

variable {ο ν : Type}

/-- The group that an operator starts behind an operand. -/
def begin (op : ο) (operand : ν) : Frame ο ν :=
  ⟨op, [], [operand]⟩

/-- The group with one more operand and the operator behind it. -/
def extend (frame : Frame ο ν) (op : ο) (operand : ν) : Frame ο ν :=
  ⟨op, frame.last :: frame.earlier, operand :: frame.operands⟩

/-- The operators of a group in order. -/
def operators (frame : Frame ο ν) : List ο :=
  (frame.last :: frame.earlier).reverse

end Frame

end Grouping

namespace Grammar

open Grouping

variable {m : Type → Type} [Monad m] {α ο ν : Type}

/-- The node of a group closed behind its last operand. -/
@[specialize]
def close (grammar : Grammar m α ο ν) (frame : Frame ο ν) (operand : ν) : m ν :=
  grammar.node frame.operators (operand :: frame.operands).reverse

/-- Put an operator behind the operand just read: close the groups that end
there, then join the innermost open one or start another. -/
@[specialize]
def place (grammar : Grammar m α ο ν) (op : ο) :
    List (Frame ο ν) → ν → m (List (Frame ο ν))
  | [], current => do
      grammar.mayStart op
      pure [.begin op current]
  | frame :: stack, current => do
      match ← grammar.order frame.last op with
      | .left => do
          let closed ← grammar.close frame current
          grammar.place op stack closed
      | .right => do
          grammar.mayStart op
          pure (.begin op current :: frame :: stack)
      | .aggregate => pure (frame.extend op current :: stack)

/-- Close all open groups at the end, innermost first. -/
@[specialize]
def closeAll (grammar : Grammar m α ο ν) : List (Frame ο ν) → ν → m ν
  | [], current => pure current
  | frame :: stack, current => do
      grammar.mayEnd frame.last
      let closed ← grammar.close frame current
      grammar.closeAll stack closed

variable [MonadExceptOf Error m]

/-- Read one element. -/
@[specialize]
def step (grammar : Grammar m α ο ν) : State ο ν → Element α ο → m (State ο ν)
  | .operandDue stack, .operand value => do
      let current ← grammar.leaf value
      pure (.operatorDue stack current)
  | .operandDue _, .operator _ => throw (.internal .twoOperators none)
  | .operatorDue stack current, .operator op => do
      let stack ← grammar.place op stack current
      pure (.operandDue stack)
  | .operatorDue _ _, .operand _ => throw (.internal .twoOperands none)

/-- End the sequence. -/
@[specialize]
def finish (grammar : Grammar m α ο ν) : State ο ν → m ν
  | .operandDue _ => throw (.internal .operandMissing none)
  | .operatorDue stack current => grammar.closeAll stack current

/-- The node of a sequence whose elements are read one after the other, each of
which may fail. -/
@[specialize]
def group (grammar : Grammar m α ο ν) (elements : List (m (Element α ο))) : m ν := do
  let state ← elements.foldlM (fun state element => do grammar.step state (← element))
    (.operandDue [])
  grammar.finish state

end Grammar

end OperatorMarkup
