import OperatorMarkup.Source

/-!
# Locations

A location is a span over a source.  Its text form names the first and the last
character by line and column, with the line of the last one left out where it
is the same, and marks an empty span by a closing angle bracket.
-/

namespace OperatorMarkup

/-- A span over a source. -/
structure Location where
  /-- The source. -/
  source : Source
  /-- The span over it. -/
  span : Span
  deriving DecidableEq, Repr

namespace Position

/-- A position written as line and column. -/
def display (position : Position) : String :=
  toString position.line ++ ":" ++ toString position.column

end Position

namespace Location

/-- The text that a location covers. -/
def text (location : Location) : String :=
  location.source.slice location.span

/-- The position of the first character. -/
def first (location : Location) : Position :=
  location.source.position location.span.start

/-- The position of the last character, which an empty location lacks. -/
def last? (location : Location) : Option Position :=
  location.text.toList.getLast?.map fun c =>
    location.source.position (location.span.stop - c.utf8Size)

/-- The range from a first to a last character, in the shortest of four forms. -/
def displayRange (first : Position) : Option Position → String
  | none => first.display ++ "<"
  | some last =>
      if first = last then first.display
      else if first.line = last.line then first.display ++ "-" ++ toString last.column
      else first.display ++ "-" ++ last.display

/-- The text form of a location, after its origin where there is one. -/
def display (location : Location) : String :=
  (match location.source.origin with
    | some origin => origin ++ ":"
    | none => "") ++
  displayRange location.first location.last?

/-- The offsets of a location beside its text form. -/
def describe (location : Location) : String :=
  "Location(" ++ toString location.span.start ++ ".." ++ toString location.span.stop ++
    " @ " ++ location.display ++ ")"

/-- The merged spans of some locations, over the source of the first. -/
def merge : List Location → Option Location
  | [] => none
  | first :: rest => (Span.merge ((first :: rest).map span)).map (Location.mk first.source)

end Location

end OperatorMarkup
