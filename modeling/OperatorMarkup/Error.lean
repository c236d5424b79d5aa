import OperatorMarkup.Location
import OperatorMarkup.Token

/-!
# Errors

An error is a cause with what it is about.  Where it lies and how it reads are
functions of the cause and of the source it is reported against.
-/

namespace OperatorMarkup

/-- A broken promise between two parts of the library, or a failure that a
caller reports through it. -/
inductive Defect where
  /-- Two operators follow each other where operands and operators alternate. -/
  | twoOperators
  /-- Two operands follow each other where operands and operators alternate. -/
  | twoOperands
  /-- The input ends where an operand is due. -/
  | operandMissing
  /-- A group has neither operators nor operands. -/
  | emptyGroup
  /-- A group has no operator. -/
  | operatorMissing
  /-- A group does not have one more operand than operators. -/
  | arity (operators operands : Nat)
  /-- A group mixes operators that take a line with others. -/
  | mixedLineOperators
  /-- A group has no tag. -/
  | untaggable (names : List String)
  /-- A failure with a text of its own. -/
  | reported (text : String)
  deriving DecidableEq, Repr

namespace Defect

/-- The wording of a defect. -/
def message : Defect → String
  | twoOperators => "two operators in a row; the stream does not alternate"
  | twoOperands => "two operands in a row; the stream does not alternate"
  | operandMissing => "expected an operand, found end of input"
  | emptyGroup => "empty operator group"
  | operatorMissing => "operator group without operators"
  | arity operators operands =>
      toString operators ++ " operators over " ++ toString operands ++ " operands"
  | mixedLineOperators => "mixed line operators in one group"
  | untaggable names => "cannot tag operator group " ++ " ".intercalate names
  | reported text => text

end Defect

/-- Why a text has no tree. -/
inductive Error where
  /-- No rule of the lexicon matches at a character. -/
  | noToken (span : Span)
  /-- Several operators in a row with an operand on neither side. -/
  | ambiguousNullary (operators : List Token)
  /-- Two operators that bind equally, and from which neither side wins. -/
  | unknownOrder (left right : String) (leftSpan rightSpan : Span)
  /-- A bracket without its partner. -/
  | bracketMismatch (delimiter : String) (span : Span)
  /-- A defect. -/
  | internal (defect : Defect) (span : Option Span)
  deriving DecidableEq, Repr

namespace Error

/-- The part of the source that an error is about. -/
def span? : Error → Option Span
  | noToken span => some span
  | ambiguousNullary operators => Span.merge (operators.map Token.span)
  | unknownOrder _ _ leftSpan rightSpan => Span.merge [leftSpan, rightSpan]
  | bracketMismatch _ span => some span
  | internal _ span => span

/-- The location of an error in the source it is reported against. -/
def location? (source : Source) (error : Error) : Option Location :=
  error.span?.map (Location.mk source)

/-- A text between single quotation marks. -/
def quoted (text : String) : String :=
  "'" ++ text ++ "'"

/-- The wording of an error in the source it is reported against. -/
def message (source : Source) (error : Error) : String :=
  let place (span : Span) := (Location.mk source span).display
  match error with
  | noToken span => "No token can be read at " ++ place span
  | ambiguousNullary operators =>
      "Ambiguous operators " ++ " ".intercalate (operators.map fun token => quoted token.text) ++
        " at " ++ ((Span.merge (operators.map Token.span)).map place).getD "?"
  | unknownOrder left right leftSpan rightSpan =>
      "Cannot order operator " ++ quoted left ++ " at " ++ place leftSpan ++
        " against " ++ quoted right ++ " at " ++ place rightSpan
  | bracketMismatch delimiter span =>
      "Unmatched delimiter " ++ quoted delimiter ++ " at " ++ place span
  | internal defect _ => "Internal parser error: " ++ defect.message

end Error

/-- One item of a stream: a token, or the error in its place. -/
abbrev Item := Except Error Token

end OperatorMarkup
