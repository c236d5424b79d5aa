import OperatorMarkup.Lexicon
import OperatorMarkup.Operator.Face

/-!
# Operators

An operator is a token with a face on either side.  The faces follow from how
the token came about, from its fixity and from the gaps around it.
-/

namespace OperatorMarkup

/-- An operator token with its faces. -/
structure Operator where
  /-- The token. -/
  token : Token
  /-- The face toward the operand on the left. -/
  left : Face
  /-- The face toward the operand on the right. -/
  right : Face
  deriving DecidableEq, Repr

namespace Token

/-- Line ends, and juxtapositions that stand where a line break was left
out. -/
def isLineBreak (token : Token) : Bool :=
  match token.lexeme with
  | .lineBreak => true
  | .juxtaposition => token.gapHeight > 0
  | _ => false

/-- Tokens that join or part lines. -/
def isLineLevel (token : Token) : Bool :=
  token.isLineBreak || token.lineOperator

/-- Whether there is space on either side of a token. -/
def isSpaced (token : Token) : Bool :=
  token.metrics.spaced

end Token

namespace Operator

/-- The text that the faces of an indent go by. -/
def indentText : String :=
  "INDENT"

/-- The text that the faces of a dedent go by. -/
def dedentText : String :=
  "DEDENT"

/-- The name of an operator in messages, which is its text where it has one. -/
def name (operator : Operator) : String :=
  match operator.token.lexeme with
  | .indent => indentText
  | .dedent => dedentText
  | .lineBreak => "line break"
  | .juxtaposition => if operator.token.isLineBreak then "line break" else "juxtaposition"
  | _ => operator.token.text

/-- The part of the source that an operator covers. -/
def span (operator : Operator) : Span :=
  operator.token.span

/-! ## Faces -/

/-- The priority of a line end, which is looser where it is a blank line. -/
def lineBreakPriority (token : Token) : Priority :=
  if token.gapHeight ≥ 2 then .blankLine else .line

/-- The priority of operands side by side. -/
def juxtapositionPriority (token : Token) : Priority :=
  if token.gapHeight > 0 then lineBreakPriority token
  else if token.isSpaced then .spacedJuxtaposition
  else .juxtaposition

/-- The priority of a separator; a semicolon binds looser than the others. -/
def separatorPriority (token : Token) : Priority :=
  match token.text == ";", token.isSpaced with
  | true, true => ⟨100, 0⟩
  | true, false => ⟨300, 0⟩
  | false, true => ⟨101, 0⟩
  | false, false => ⟨301, 0⟩

/-- The faces of an operator that has a line to itself, looser the wider it
is. -/
def lineFaces (token : Token) : Fixity → Face × Face
  | .prefixOp =>
      (.immediate token.text,
        ⟨token.text, Priority.lineEdge.byWidth token.text.length, .left, .never⟩)
  | .suffixOp =>
      (⟨token.text, Priority.lineEdge.byWidth token.text.length, .left, .never⟩,
        .immediate token.text)
  | _ =>
      let face : Face :=
        ⟨token.text, Priority.wideLine.byWidth token.text.length, .left, .same⟩
      (face, face)

/-- The faces of an operator within a line.  One that leans on its operand may
pair up with another of the same text. -/
def inlineFaces (token : Token) : Fixity → Face × Face
  | .prefixOp =>
      (.immediate token.text,
        if token.metrics.spacedAfter then ⟨token.text, .spacedOperator, .right, .never⟩
        else ⟨token.text, .marker token.text.length, .left, .opens token.text false⟩)
  | .suffixOp =>
      (if token.metrics.spacedBefore then ⟨token.text, .spacedOperator, .right, .never⟩
        else ⟨token.text, .marker token.text.length, .left, .closes token.text false⟩,
        .immediate token.text)
  | _ =>
      let priority : Priority := if token.isSpaced then .spacedOperator else .operator
      let face : Face := ⟨token.text, priority, .right, .same⟩
      (face, face)

/-- The faces of an operator token. -/
def faces (lexicon : Lexicon) (token : Token) : Face × Face :=
  let fixity := token.kind.fixity?.getD .infixOp
  match token.lexeme with
  | .opener =>
      let closer := ((lexicon.closerFor token.text).map Char.toString).getD ""
      (.immediate token.text, ⟨token.text, .delimiter, .neither, .opens closer true⟩)
  | .closer =>
      let opener := ((lexicon.openerFor token.text).map Char.toString).getD ""
      (⟨token.text, .delimiter, .neither, .closes opener true⟩, .immediate token.text)
  | .indent =>
      (⟨indentText, .indentHead, .left, .never⟩,
        ⟨indentText, .indent, .neither, .opens dedentText true⟩)
  | .dedent =>
      (⟨dedentText, .indent, .neither, .closes indentText true⟩, .immediate dedentText)
  | .lineBreak =>
      let face : Face := ⟨"", lineBreakPriority token, .left, .same⟩
      (face, face)
  | .juxtaposition =>
      let face : Face := ⟨"", juxtapositionPriority token, .left, .same⟩
      (face, face)
  | .separator =>
      let face : Face := ⟨token.text, separatorPriority token, .right, .same⟩
      (face, face)
  | .word | .operator | .filler =>
      if token.lineOperator then lineFaces token fixity else inlineFaces token fixity

/-- The operator of a token. -/
def ofToken (lexicon : Lexicon) (token : Token) : Operator :=
  let faces := faces lexicon token
  ⟨token, faces.1, faces.2⟩

end Operator

end OperatorMarkup
