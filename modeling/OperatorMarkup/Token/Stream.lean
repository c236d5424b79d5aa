import OperatorMarkup.Token.Alternation
import OperatorMarkup.Token.Extent
import OperatorMarkup.Token.FixityChoice
import OperatorMarkup.Token.Indentation
import OperatorMarkup.Token.Reading

/-!
# The token stream of a source

The stream that operators are grouped in comes about in five steps.  Each is a
function on the items of the one before, and an error in one of them ends the
stream.
-/

namespace OperatorMarkup

variable (lexicon : Lexicon) (source : Source)

/-- The tokens of a source with its indentation made explicit. -/
def loweredStream : List Item :=
  lowerIndentation (tokenize lexicon source)

/-- The tokens of a source with the fixities of its operators decided. -/
def decidedStream : List Item :=
  chooseFixities source.size (loweredStream lexicon source)

/-- The tokens of a source with operands and operators alternating. -/
def alternatingStream : List Item :=
  alternate (decidedStream lexicon source)

/-- The alternating tokens of a source with its operands widened over the
gaps. -/
def tokenStream : List Item :=
  widenOperands source.size (alternatingStream lexicon source)

end OperatorMarkup
