import OperatorMarkup.Stage

/-!
# Indentation made explicit

Outside brackets a deeper line is opened by an indent, every level left is
closed by a dedent, and lines of one level are joined by a line break.  Inside
brackets a line end is a line break at most.  No line break stands next to an
operator that has a line to itself.
-/

namespace OperatorMarkup

namespace Indentation

/-- The level of a line with the levels around it. -/
structure Levels where
  /-- The width of the level. -/
  width : Nat
  /-- The widths of the levels around it, innermost first. -/
  enclosing : List Nat
  deriving DecidableEq, Repr

namespace Levels

/-- The levels with a deeper one inside. -/
def enter (levels : Levels) (width : Nat) : Levels :=
  ⟨width, levels.width :: levels.enclosing⟩

/-- Leave levels for as long as a line is narrower than the level and no wider
than the one around it.  The first component counts the levels left. -/
def leaveFrom (lineWidth width : Nat) : List Nat → Nat × Levels
  | [] => (0, ⟨width, []⟩)
  | outer :: enclosing =>
      if lineWidth < width ∧ lineWidth ≤ outer then
        let left := leaveFrom lineWidth outer enclosing
        (left.1 + 1, left.2)
      else (0, ⟨width, outer :: enclosing⟩)

/-- The number of levels that a line of the given width leaves, and the levels
that it stands in. -/
def leave (levels : Levels) (lineWidth : Nat) : Nat × Levels :=
  leaveFrom lineWidth levels.width levels.enclosing

end Levels

/-- Where the stage stands behind a token. -/
structure State where
  /-- The token. -/
  token : Token
  /-- The levels of its line. -/
  levels : Levels
  /-- The number of brackets open behind it. -/
  depth : Nat
  deriving DecidableEq, Repr

/-- The number of open brackets behind a token. -/
def depthAfter (depth : Nat) (token : Token) : Nat :=
  match token.lexeme with
  | .opener => depth + 1
  | .closer => depth - 1
  | _ => depth

/-- A token put in at the end of another, with the gap behind that one. -/
def inserted (token : Token) (fixity : Fixity) (lexeme : Lexeme) : Token :=
  .synthetic (.operator fixity) lexeme token.after token.span.stop

/-- The line break between two tokens, unless one has a line to itself. -/
def lineBreakBetween (token next : Token) : List Token :=
  if token.lineOperator || next.lineOperator then []
  else [inserted token .infixOp .lineBreak]

/-- The levels behind the gap between two tokens, and the tokens put into it. -/
def cross (state : State) (next : Token) : Levels × List Token :=
  if state.token.heightAfter = 0 then (state.levels, [])
  else if state.depth > 0 then
    (state.levels,
      if state.token.lexeme = .opener ∨ next.lexeme = .closer then []
      else lineBreakBetween state.token next)
  else if next.spaceBefore > state.levels.width then
    (state.levels.enter next.spaceBefore, [inserted state.token .infixOp .indent])
  else
    let left := state.levels.leave next.spaceBefore
    (left.2,
      List.replicate left.1 (inserted state.token .suffixOp .dedent) ++
        lineBreakBetween state.token next)

/-- Read a token behind the others. -/
def step (state : Option State) (token : Token) : Option State × List Token :=
  match state with
  | none => (some ⟨token, ⟨token.spaceBefore, []⟩, depthAfter 0 token⟩, [token])
  | some state =>
      let crossed := cross state token
      (some ⟨token, crossed.1, depthAfter state.depth token⟩, crossed.2 ++ [token])

/-- The dedents behind the last token, one for each level still open. -/
def finish : Option State → List Token
  | none => []
  | some state =>
      List.replicate state.levels.enclosing.length (inserted state.token .suffixOp .dedent)

/-- The stage that makes indentation explicit. -/
def stage : Stage (Option State) where
  start := none
  step state token := .ok (step state token)
  finish state := .ok (finish state)

end Indentation

/-- A stream with its indentation made explicit. -/
def lowerIndentation (items : List Item) : List Item :=
  Indentation.stage.run items

end OperatorMarkup
