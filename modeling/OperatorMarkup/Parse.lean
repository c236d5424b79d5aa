import OperatorMarkup.Operator.Order
import OperatorMarkup.Token.Stream
import OperatorMarkup.Tree.Build
import OperatorMarkup.Tree.Whitespace

/-!
# Parsing

A source is parsed by grouping its token stream in the order of its operators,
and by giving whitespace to its owners in the tree that results.
-/

namespace OperatorMarkup

variable (lexicon : Lexicon) (source : Source)

/-- A token as an element of a sequence to be grouped. -/
def Token.element (token : Token) : Element Token Operator :=
  if token.isOperand then .operand token else .operator (.ofToken lexicon token)

/-- The elements of a source. -/
def elements : List (Except Error (Element Token Operator)) :=
  (tokenStream lexicon source).map fun item => item.map (Token.element lexicon)

/-- The operators of a source in order, or the first error of its stream. -/
def operators : Except Error (List Operator) := do
  let tokens ← (tokenStream lexicon source).mapM id
  pure ((tokens.filter Token.isOperator).map (Operator.ofToken lexicon))

/-- The tree of a source whose whitespace still lies around its leaves. -/
def groupedTree : Except Error Node :=
  (Operator.grammar (Node.ofToken source) Node.ofGroup).group (elements lexicon source)

/-- The tree of a source.  Its root owns both of its edges. -/
def parse : Except Error Node :=
  (groupedTree lexicon source).map fun root => (root.settle source ⟨true, true⟩).node

end OperatorMarkup
