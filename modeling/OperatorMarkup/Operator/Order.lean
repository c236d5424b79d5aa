import OperatorMarkup.Grouping
import OperatorMarkup.Operator.Basic

/-!
# The order of operators

Two operators in a row are ordered by the faces that they turn to each other.
Faces that join do so whatever they bind to; delimiters that need their partners
and do not join are an error; else the tighter face wins, and of equally tight
ones the side that both agree on.
-/

namespace OperatorMarkup

namespace Operator

/-- The error of a delimiter without its partner. -/
def mismatch (operator : Operator) : Error :=
  .bracketMismatch operator.name operator.span

/-- The delimiter at fault where two do not pair: the one on the left, unless it
was put in and the other was not. -/
def culprit (left right : Operator) : Operator :=
  if left.token.lexeme.isSynthetic && !right.token.lexeme.isSynthetic then right else left

/-- How a pending operator relates to the next one. -/
def order (left right : Operator) : Except Error Decision :=
  let pending := left.right
  let next := right.left
  if pending.accepts next then .ok .aggregate
  else if pending.merge.isRequired && next.merge.isRequired then
    .error (culprit left right).mismatch
  else if next.priority < pending.priority then .ok .left
  else if pending.priority < next.priority then .ok .right
  else
    match pending.tie, next.tie with
    | .left, .left => .ok .left
    | .right, .right => .ok .right
    | _, _ => .error (.unknownOrder left.name right.name left.span right.span)

/-- An operator that needs an opening delimiter does not start a group. -/
def mayStart (operator : Operator) : Except Error Unit :=
  match operator.left.merge with
  | .closes _ true => .error operator.mismatch
  | _ => .ok ()

/-- A group that needs a closing delimiter is not open at the end. -/
def mayEnd (operator : Operator) : Except Error Unit :=
  match operator.right.merge with
  | .opens _ true => .error operator.mismatch
  | _ => .ok ()

/-- The grammar of operators over any operands and nodes. -/
def grammar {α ν : Type} (leaf : α → ν) (node : List Operator → List ν → Except Error ν) :
    Grammar (Except Error) α Operator ν where
  order := order
  leaf operand := .ok (leaf operand)
  node := node
  mayStart := mayStart
  mayEnd := mayEnd

end Operator

end OperatorMarkup
