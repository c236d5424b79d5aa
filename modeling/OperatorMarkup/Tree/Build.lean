import OperatorMarkup.Error
import OperatorMarkup.Operator.Basic
import OperatorMarkup.Tree.Basic

/-!
# Building trees

A leaf is built from an operand token, and a group from its operators and
operands.  Until whitespace is given to its owners, a leaf keeps what surrounds
its text, and a group keeps none.

A group of an indent and a dedent has a head, a body and a tail.  A head under an
operator of the text takes the indented part into its last operand; any other
head becomes the first line of the part.
-/

namespace OperatorMarkup

namespace Node

/-- The place of an operand token, with what surrounds its text. -/
def tokenPlace (source : Source) (token : Token) : Place :=
  let left := min token.before.utf8ByteSize token.span.length
  let right := min (left + token.text.utf8ByteSize) token.span.length
  { span := token.span
    left := sliceBytes source.text token.span.start (token.span.start + left)
    right := sliceBytes source.text (token.span.start + right) token.span.stop }

/-- The node of an operand token. -/
def ofToken (source : Source) (token : Token) : Node :=
  match token.kind with
  | .void => .void ⟨token.span, "", ""⟩
  | .nullary => .nullary token.text (tokenPlace source token)
  | .identifier | .operator _ => .leaf token.text (tokenPlace source token)

/-- The smallest span of some operators and operands. -/
def coveredSpan? (operators : List Operator) (operands : List Node) : Option Span :=
  Span.merge (operators.map Operator.span ++ operands.map Node.span)

/-- The lines of a body: those of a paragraph, and else the body itself. -/
def bodyLines : Node → List Node
  | group .block tag wide children place =>
      if tag = .paragraph then children else [group .block tag wide children place]
  | body => [body]

/-- A block with a tag. -/
def block (tag : Tag) (children : List Node) (span : Span) : Node :=
  .group .block tag true children ⟨span, "", ""⟩

/-- The node of an indent and a dedent with the given span. -/
def indentBlock (operators : List Operator) (span : Span) (head body tail : Node) : Node :=
  let asLine := block .indented (head :: bodyLines body ++ [tail]) span
  match head with
  | .group .inline tag wide children place =>
      if tag = .empty then asLine
      else
        match children.getLast? with
        | none => asLine
        | some last =>
            let lines := last :: bodyLines body ++ [tail]
            let inner := block .indented lines ((coveredSpan? operators lines).getD span)
            .group .inline tag wide (children.dropLast ++ [inner]) { place with span := span }
  | _ => asLine

/-- The tag of operators that take a line, of which the first is given. -/
def lineTag (first : Operator) (operators : List Operator) : Tag :=
  if first.token.isLineBreak then
    if operators.any (·.token.gapHeight ≥ 2) then .blank else .paragraph
  else .single first.token.text

/-- The tag of operators within lines, of which the first is given. -/
def inlineTag? (first : Operator) (operators : List Operator) : Option Tag :=
  if operators.all (·.token.text == first.token.text) then some (.single first.token.text)
  else
    match operators with
    | [opener, closer] => some (.pair opener.token.text closer.token.text)
    | _ => none

/-- Whether operators are an indent and a dedent. -/
def isIndentPair : List Operator → Bool
  | [opener, closer] => opener.token.lexeme == .indent && closer.token.lexeme == .dedent
  | _ => false

/-- The node of a group with the given span, of whose operators the first is
given. -/
def ofTagged (first : Operator) (operators : List Operator) (operands : List Node)
    (span : Span) : Except Error Node :=
  if first.token.isLineLevel then
    if operators.all fun op => op.token.isLineLevel && op.token.text == first.token.text then
      .ok (block (lineTag first operators) operands span)
    else .error (.internal .mixedLineOperators (some span))
  else
    match inlineTag? first operators with
    | some tag =>
        .ok (.group .inline tag (operators.any (·.token.isSpaced)) operands ⟨span, "", ""⟩)
    | none => .error (.internal (.untaggable (operators.map Operator.name)) (some span))

/-- The node of a group, given its operators and one more operand, each in
order. -/
def ofGroup (operators : List Operator) (operands : List Node) : Except Error Node :=
  match coveredSpan? operators operands, operators with
  | none, _ => .error (.internal .emptyGroup none)
  | some span, [] => .error (.internal .operatorMissing (some span))
  | some span, first :: _ =>
      if operands.length ≠ operators.length + 1 then
        .error (.internal (.arity operators.length operands.length) (some span))
      else
        match isIndentPair operators, operands with
        | true, [head, body, tail] => .ok (indentBlock operators span head body tail)
        | _, _ => ofTagged first operators operands span

end Node

/-- How a tree is to be built: from a token, or from operators with the plans of
their operands. -/
inductive Plan where
  /-- A leaf. -/
  | leaf (token : Token)
  /-- A group. -/
  | group (operators : List Operator) (operands : List Plan)

namespace Plan

mutual

/-- Build a tree, operands first and from left to right. -/
def build (source : Source) : Plan → Except Error Node
  | leaf token => .ok (.ofToken source token)
  | group operators operands => do
      let operands ← buildAll source operands
      Node.ofGroup operators operands

/-- Build some trees from left to right. -/
def buildAll (source : Source) : List Plan → Except Error (List Node)
  | [] => .ok []
  | plan :: rest => do
      let node ← build source plan
      let nodes ← buildAll source rest
      .ok (node :: nodes)

end

end Plan

end OperatorMarkup
