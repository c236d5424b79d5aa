import OperatorMarkup.Gap
import OperatorMarkup.Source

/-!
# Tokens

A token is a piece of the text with the gap on either side of it.  Some tokens
have no text of their own: they stand for a change of indentation, for a line
end, or for an operand or operator that the text leaves out.
-/

namespace OperatorMarkup

/-- How an operator attaches to its operands. -/
inductive Fixity where
  /-- One operand, on the right. -/
  | prefixOp
  /-- An operand on either side. -/
  | infixOp
  /-- One operand, on the left. -/
  | suffixOp
  /-- Still to be read off the surroundings. -/
  | ambiguous
  deriving DecidableEq, Repr

/-- What a token stands for. -/
inductive Kind where
  /-- A word. -/
  | identifier
  /-- An operator that stands alone where an operand goes. -/
  | nullary
  /-- An operand that the text leaves out. -/
  | void
  /-- An operator. -/
  | operator (fixity : Fixity)
  deriving DecidableEq, Repr

namespace Kind

/-- The fixity of an operator. -/
def fixity? : Kind → Option Fixity
  | operator fixity => some fixity
  | _ => none

/-- Whether a token of this kind is an operator. -/
def isOperator (kind : Kind) : Bool :=
  kind.fixity?.isSome

/-- Whether a token of this kind stands where an operand goes. -/
def isOperand (kind : Kind) : Bool :=
  !kind.isOperator

end Kind

/-- How a token came about: read by a rule of the lexicon, or put in between. -/
inductive Lexeme where
  /-- A word of the text. -/
  | word
  /-- A run of operator characters. -/
  | operator
  /-- A single separator. -/
  | separator
  /-- An opening bracket. -/
  | opener
  /-- A closing bracket. -/
  | closer
  /-- The step to a deeper line. -/
  | indent
  /-- The return from a deeper line. -/
  | dedent
  /-- The step to a line of the same level. -/
  | lineBreak
  /-- The operator between two operands that stand side by side. -/
  | juxtaposition
  /-- The operand that an operator lacks. -/
  | filler
  deriving DecidableEq, Repr

/-- Whether a token was put in between rather than read from the text. -/
def Lexeme.isSynthetic : Lexeme → Bool
  | indent | dedent | lineBreak | juxtaposition | filler => true
  | word | operator | separator | opener | closer => false

/-- A token with the gaps around it. -/
structure Token where
  /-- What it stands for. -/
  kind : Kind
  /-- How it came about. -/
  lexeme : Lexeme
  /-- Its own text, empty where it was put in between. -/
  text : String
  /-- The gap before it. -/
  before : String
  /-- The gap behind it. -/
  after : String
  /-- The part of the source that it covers. -/
  span : Span
  /-- An operator of three or more characters, alone on its line. -/
  lineOperator : Bool
  deriving DecidableEq, Repr

namespace Token

/-- Whether a span with the given gaps around it has its lines to itself, where
the ends of the text count as line ends. -/
def standsAlone (textSize : Nat) (before after : String) (span : Span) : Bool :=
  (Gap.height before > 0 || span.start == before.utf8ByteSize) &&
    (Gap.height after > 0 || span.stop + after.utf8ByteSize == textSize)

/-- A token read from a text of the given size. -/
def read (textSize : Nat) (kind : Kind) (lexeme : Lexeme) (text before after : String)
    (span : Span) : Token where
  kind := kind
  lexeme := lexeme
  text := text
  before := before
  after := after
  span := span
  lineOperator :=
    lexeme == .operator && text.length ≥ 3 && standsAlone textSize before after span

/-- A token without text, put in between at an offset.  The gap that it stands
in counts as lying on both sides of it. -/
def synthetic (kind : Kind) (lexeme : Lexeme) (gap : String) (offset : Nat) : Token where
  kind := kind
  lexeme := lexeme
  text := ""
  before := gap
  after := gap
  span := .point offset
  lineOperator := false

/-- The same token with another kind. -/
def withKind (token : Token) (kind : Kind) : Token :=
  { token with kind := kind }

/-- The same token as an operator of the given fixity. -/
def withFixity (token : Token) (fixity : Fixity) : Token :=
  token.withKind (.operator fixity)

/-- The same token over another part of the source. -/
def withSpan (token : Token) (span : Span) : Token :=
  { token with span := span }

/-- Whether a token is an operator. -/
def isOperator (token : Token) : Bool :=
  token.kind.isOperator

/-- Whether a token stands where an operand goes. -/
def isOperand (token : Token) : Bool :=
  token.kind.isOperand

/-! ## Measures of the gaps -/

/-- The measures of the gaps around a token. -/
def metrics (token : Token) : Metrics :=
  Metrics.measure token.before token.after

/-- Columns before the token on its own line. -/
def spaceBefore (token : Token) : Nat :=
  token.metrics.spaceBefore

/-- Columns behind the token on its own line. -/
def spaceAfter (token : Token) : Nat :=
  token.metrics.spaceAfter

/-- Line ends since the previous token. -/
def heightBefore (token : Token) : Nat :=
  Gap.height token.before

/-- Line ends up to the next token. -/
def heightAfter (token : Token) : Nat :=
  Gap.height token.after

/-- The larger number of line ends on the two sides, which is that of the gap
where the token was put in between. -/
def gapHeight (token : Token) : Nat :=
  max token.heightBefore token.heightAfter

/-- A blank line, or the start of the text, lies before the token. -/
def blankBefore (token : Token) : Bool :=
  token.heightBefore ≥ 2 || token.span.start == token.before.utf8ByteSize

/-- A blank line, or the end of a text of the given size, lies behind the
token. -/
def blankAfter (textSize : Nat) (token : Token) : Bool :=
  token.heightAfter ≥ 2 || token.span.stop + token.after.utf8ByteSize == textSize

end Token

end OperatorMarkup
