/-!
# Gaps between tokens

A gap is the whitespace between two tokens.  What the rest of the library reads
from it is how many line ends it crosses and how many columns it takes on the
line where it starts and on the line where it ends.
-/

namespace OperatorMarkup

namespace Gap

/-- The number of line ends that a gap crosses. -/
def height (gap : String) : Nat :=
  gap.toList.count '\n'

/-- The number of columns that characters of one line take; a carriage return
takes none. -/
def columns (chars : List Char) : Nat :=
  chars.countP (· != '\r')

/-- The columns of a gap on the line where it starts. -/
def widthOnFirstLine (gap : String) : Nat :=
  columns (gap.toList.takeWhile (· != '\n'))

/-- The columns of a gap on the line where it ends. -/
def widthOnLastLine (gap : String) : Nat :=
  columns (gap.toList.reverse.takeWhile (· != '\n'))

@[simp]
theorem height_empty : height "" = 0 :=
  rfl

@[simp]
theorem columns_nil : columns [] = 0 :=
  rfl

theorem columns_append (first second : List Char) :
    columns (first ++ second) = columns first + columns second := by
  simp [columns]

theorem height_append (first second : String) :
    height (first ++ second) = height first + height second := by
  simp [height]

end Gap

/-- What the two gaps around a token measure. -/
structure Metrics where
  /-- Columns before the token on its own line. -/
  spaceBefore : Nat
  /-- Columns behind the token on its own line. -/
  spaceAfter : Nat
  /-- Line ends since the previous token. -/
  heightBefore : Nat
  /-- Line ends up to the next token. -/
  heightAfter : Nat
  deriving DecidableEq, Repr

namespace Metrics

/-- The measures of a gap before and a gap behind a token. -/
def measure (before after : String) : Metrics where
  spaceBefore := Gap.widthOnLastLine before
  spaceAfter := Gap.widthOnFirstLine after
  heightBefore := Gap.height before
  heightAfter := Gap.height after

/-- A token is spaced on its left where its gap has a column or a line end. -/
def spacedBefore (metrics : Metrics) : Bool :=
  metrics.spaceBefore > 0 || metrics.heightBefore > 0

/-- A token is spaced on its right where its gap has a column or a line end. -/
def spacedAfter (metrics : Metrics) : Bool :=
  metrics.spaceAfter > 0 || metrics.heightAfter > 0

/-- A token is spaced where either side is. -/
def spaced (metrics : Metrics) : Bool :=
  metrics.spacedBefore || metrics.spacedAfter

end Metrics

end OperatorMarkup
