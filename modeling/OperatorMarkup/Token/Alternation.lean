import OperatorMarkup.Stage

/-!
# Alternating operands and operators

Between two operands that stand side by side goes a juxtaposition, and where an
operator lacks an operand goes a void one.  The stream then alternates, and
starts and ends with an operand.
-/

namespace OperatorMarkup

/-- The part of a token in the alternation. -/
inductive Role where
  /-- An operand. -/
  | operand
  /-- An operator in front of its operand. -/
  | before
  /-- An operator between its operands. -/
  | between
  /-- An operator behind its operand. -/
  | behind
  deriving DecidableEq, Repr

/-- The part of a token of this kind. -/
def Kind.role : Kind → Role
  | operator .prefixOp => .before
  | operator .suffixOp => .behind
  | operator _ => .between
  | _ => .operand

/-- A token that the alternation puts in. -/
inductive Filler where
  /-- An operand that is left out. -/
  | void
  /-- The operator between operands that stand side by side. -/
  | juxtaposition
  deriving DecidableEq, Repr

namespace Alternation

/-- What goes between a token and the next, by their parts. -/
def fillers : Role → Role → List Filler
  | .operand, .operand => [.juxtaposition]
  | .operand, .before => [.juxtaposition, .void]
  | .operand, _ => []
  | .behind, .operand => [.void, .juxtaposition]
  | .behind, .before => [.void, .juxtaposition, .void]
  | _, .operand => []
  | _, _ => [.void]

/-- Where the stage stands behind a token. -/
structure State where
  /-- The part of the token. -/
  role : Role
  /-- The offset behind the token. -/
  offset : Nat
  /-- The gap behind the token. -/
  gap : String
  deriving DecidableEq, Repr

/-- The token of a filler at a place. -/
def State.token (state : State) : Filler → Token
  | .void => .synthetic .void .filler state.gap state.offset
  | .juxtaposition => .synthetic (.operator .infixOp) .juxtaposition state.gap state.offset

/-- The tokens put in before one of the given part. -/
def State.fill (state : State) (role : Role) : List Token :=
  (fillers state.role role).map state.token

/-- The state behind a token. -/
def State.after (token : Token) : State :=
  ⟨token.kind.role, token.span.stop, token.after⟩

/-- The stage that makes a stream alternate.  Either end of the text counts as
an operator between operands. -/
def stage : Stage State where
  start := ⟨.between, 0, ""⟩
  step state token := .ok (.after token, state.fill token.kind.role ++ [token])
  finish state := .ok (state.fill .between)

end Alternation

/-- A stream with the operands and operators put in that make it alternate. -/
def alternate (items : List Item) : List Item :=
  Alternation.stage.run items

end OperatorMarkup
