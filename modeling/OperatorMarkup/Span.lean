/-!
# Spans of a text

A span is a half-open range of byte offsets.  The order of its ends is part of
the type, so lengths never need a side condition.  Spans are merged by their
hull; empty spans mark a point and do not stretch a merge.
-/

namespace OperatorMarkup

/-- A half-open range of byte offsets. -/
structure Span where
  /-- The offset of the first byte. -/
  start : Nat
  /-- The offset behind the last byte. -/
  stop : Nat
  start_le_stop : start ≤ stop := by omega
  deriving DecidableEq, Repr

namespace Span

/-- The span between two offsets, empty at the first one where the second lies
before it. -/
def between (start stop : Nat) : Span :=
  ⟨start, max start stop, Nat.le_max_left start stop⟩

/-- The empty span at an offset. -/
def point (offset : Nat) : Span :=
  ⟨offset, offset, Nat.le_refl offset⟩

instance : Inhabited Span :=
  ⟨point 0⟩

/-- The number of bytes in a span. -/
def length (span : Span) : Nat :=
  span.stop - span.start

/-- A span is empty when its ends agree. -/
def isEmpty (span : Span) : Bool :=
  span.start == span.stop

/-- The empty span at the first end. -/
def atStart (span : Span) : Span :=
  point span.start

/-- The empty span at the second end. -/
def atStop (span : Span) : Span :=
  point span.stop

/-- The smallest span that covers two spans. -/
def hull (first second : Span) : Span :=
  ⟨min first.start second.start, max first.stop second.stop, by
    have := first.start_le_stop
    omega⟩

/-- The smallest span that covers the non-empty spans of a list, and the first
span where all are empty. -/
def merge : List Span → Option Span
  | [] => none
  | first :: rest =>
      match (first :: rest).filter (fun span => !span.isEmpty) with
      | [] => some first
      | covered :: more => some (more.foldl hull covered)

/-! ## Ends of the derived spans -/

@[simp]
theorem between_start (start stop : Nat) : (between start stop).start = start :=
  rfl

@[simp]
theorem between_stop (start stop : Nat) :
    (between start stop).stop = max start stop :=
  rfl

@[simp]
theorem point_start (offset : Nat) : (point offset).start = offset :=
  rfl

@[simp]
theorem point_stop (offset : Nat) : (point offset).stop = offset :=
  rfl

@[simp]
theorem hull_start (first second : Span) :
    (hull first second).start = min first.start second.start :=
  rfl

@[simp]
theorem hull_stop (first second : Span) :
    (hull first second).stop = max first.stop second.stop :=
  rfl

theorem isEmpty_iff (span : Span) : span.isEmpty = true ↔ span.start = span.stop := by
  simp [isEmpty]

@[simp]
theorem merge_nil : merge [] = none :=
  rfl

@[simp]
theorem merge_singleton (span : Span) : merge [span] = some span := by
  cases empty : span.isEmpty <;> simp [merge, empty]

end Span

end OperatorMarkup
