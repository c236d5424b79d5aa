import OperatorMarkup.Stage

/-!
# The fixities of operators

A run of undecided operators is decided by its surroundings: whether an operand
still has to start in front of it, and whether one has to end behind it.  Where
neither is so, the gaps around its first operator decide.
-/

namespace OperatorMarkup

namespace Kind

/-- Whether an operand has to follow a token of this kind. -/
def needsOperandAfter : Kind → Bool
  | operator .suffixOp => false
  | operator _ => true
  | _ => false

/-- Whether an operand has to precede a token of this kind. -/
def needsOperandBefore : Kind → Bool
  | operator .infixOp | operator .suffixOp => true
  | _ => false

end Kind

namespace FixityChoice

/-- Whether there is space on either side of an operator: blank lines where it
has its line to itself, and any columns elsewhere. -/
def sides (textSize : Nat) (token : Token) : Bool × Bool :=
  if token.lineOperator then (token.blankBefore, token.blankAfter textSize)
  else (token.spaceBefore > 0, token.spaceAfter > 0)

/-- An operator between operands leans to the side without space, and joins
both where the sides are alike. -/
def leaning (textSize : Nat) (token : Token) : Fixity :=
  match sides textSize token with
  | (true, false) => .prefixOp
  | (false, true) => .suffixOp
  | _ => .infixOp

/-- Decide a run.  The flags say that an operand is due before it, and that one
is due behind it. -/
def resolve (textSize : Nat) (dueBefore dueAfter : Bool) : List Token → Except Error (List Token)
  | [] => .ok []
  | token :: rest =>
      match dueBefore, dueAfter with
      | true, true =>
          match rest with
          | [] => .ok [token.withKind .nullary]
          | _ => .error (.ambiguousNullary (token :: rest))
      | true, false => .ok ((token :: rest).map (·.withFixity .prefixOp))
      | false, true => .ok ((token :: rest).map (·.withFixity .suffixOp))
      | false, false =>
          let fixity := leaning textSize token
          (resolve textSize (fixity != .suffixOp) false rest).map (token.withFixity fixity :: ·)

/-- Where the stage stands between two tokens. -/
structure State where
  /-- The undecided operators just read, latest first. -/
  run : List Token
  /-- Whether an operand is due before the run. -/
  due : Bool
  deriving DecidableEq, Repr

/-- Read a token; one that is decided decides the run before it. -/
def step (textSize : Nat) (state : State) (token : Token) : Except Error (State × List Token) :=
  if token.kind = .operator .ambiguous then .ok (⟨token :: state.run, state.due⟩, [])
  else
    (resolve textSize state.due token.kind.needsOperandBefore state.run.reverse).map fun run =>
      (⟨[], token.kind.needsOperandAfter⟩, run ++ [token])

/-- The stage that decides fixities in a text of the given size.  The start of
the text needs an operand behind it, and the end one before it. -/
def stage (textSize : Nat) : Stage State where
  start := ⟨[], true⟩
  step := step textSize
  finish state := resolve textSize state.due true state.run.reverse

end FixityChoice

/-- A stream with the fixities of its operators decided, in a text of the given
size. -/
def chooseFixities (textSize : Nat) (items : List Item) : List Item :=
  (FixityChoice.stage textSize).run items

end OperatorMarkup
