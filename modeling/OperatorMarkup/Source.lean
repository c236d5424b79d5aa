import OperatorMarkup.Slice
import OperatorMarkup.Span

/-!
# Sources and positions

A source is a text with an optional origin, such as a path.  Offsets into it
count bytes of its UTF-8 form; a position counts lines and, within a line,
characters, both from one.  The line of an offset is found in the table of the
offsets at which lines start.
-/

namespace OperatorMarkup

/-- A text, with where it came from. -/
structure Source where
  /-- The whole text. -/
  text : String
  /-- Where the text came from, shown in front of every location. -/
  origin : Option String := none
  /-- Tells apart two sources that hold the same text. -/
  serial : Nat := 0
  deriving DecidableEq, Repr

/-- A line and a column, both counted from one. -/
structure Position where
  /-- The line. -/
  line : Nat
  /-- The column, in characters. -/
  column : Nat
  deriving DecidableEq, Repr

/-! ## Line tables -/

/-- The number of entries in front of the first one that fails a condition, between
two bounds that are halved until they meet.  No entry behind that one may fulfil the
condition. -/
def partitionPoint {α : Type} (entries : Array α) (fulfils : α → Bool) (low high : Nat)
    (inside : high ≤ entries.size) : Nat :=
  if less : low < high then
    let middle := low + (high - low) / 2
    have : middle < entries.size := by omega
    if fulfils entries[middle] then
      partitionPoint entries fulfils (middle + 1) high inside
    else
      partitionPoint entries fulfils low middle (by omega)
  else low
termination_by high - low

theorem partitionPoint_le {α : Type} {entries : Array α} {fulfils : α → Bool} {low high : Nat}
    {inside : high ≤ entries.size} (le : low ≤ high) :
    partitionPoint entries fulfils low high inside ≤ high := by
  fun_induction partitionPoint entries fulfils low high inside with
  | case1 low high inside less middle below fulfilled ih => exact ih (by omega)
  | case2 low high inside less middle below failed ih =>
      have inLower := ih (by omega)
      omega
  | case3 low high inside notLess => exact le

/-- The offsets at which the lines of a text start, in order. -/
structure LineTable where
  /-- One offset for each line. -/
  starts : Array Nat
  size_pos : 0 < starts.size

namespace LineTable

/-- The lines of characters that stand at an offset, behind those already found:
one starts behind each newline. -/
def extend (table : LineTable) (offset : Nat) : List Char → LineTable
  | [] => table
  | c :: rest =>
      let next := offset + c.utf8Size
      if c = '\n' then extend ⟨table.starts.push next, by simp⟩ next rest
      else extend table next rest

/-- The lines of a text, the first of which starts with the text. -/
def ofText (text : String) : LineTable :=
  extend ⟨#[0], by simp⟩ 0 text.toList

/-- The line of an offset, which is the last one to start at or before it. -/
def lineAt (table : LineTable) (offset : Nat) : Fin table.starts.size :=
  ⟨partitionPoint table.starts (· ≤ offset) 0 table.starts.size (Nat.le_refl _) - 1, by
    have some := table.size_pos
    have most : partitionPoint table.starts (· ≤ offset) 0 table.starts.size (Nat.le_refl _) ≤
        table.starts.size := partitionPoint_le (Nat.zero_le _)
    omega⟩

end LineTable

namespace Source

/-- The number of bytes of the text. -/
def size (source : Source) : Nat :=
  source.text.utf8ByteSize

/-- The text that a span covers. -/
def slice (source : Source) (span : Span) : String :=
  sliceBytes source.text span.start span.stop

/-- The lines of the text. -/
def lines (source : Source) : LineTable :=
  .ofText source.text

/-- The position of an offset; an offset behind the end counts as the end. -/
def position (source : Source) (offset : Nat) : Position :=
  let lines := source.lines
  let line := lines.lineAt (min offset source.size)
  let front := sliceBytes source.text lines.starts[line] (min offset source.size)
  ⟨line + 1, front.length + 1⟩

end Source

end OperatorMarkup
