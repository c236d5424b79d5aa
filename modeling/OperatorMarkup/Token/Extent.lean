import OperatorMarkup.Error

/-!
# The extents of operands

Operands are widened to meet the operators on either side, so that they own all
of the gaps; the first one reaches to the start of the text and the last one to
its end.  An error in the stream stays where it is.
-/

namespace OperatorMarkup

namespace Extent

/-- The offset where the item before some others has to end: the start of the
next token, or the end of a text of the given size. -/
def limit (textSize : Nat) : List Item → Nat
  | .ok next :: _ => next.span.start
  | _ => textSize

/-- A span widened to reach from one offset to another. -/
def widen (start stop : Nat) (span : Span) : Span :=
  ⟨min start span.start, max stop span.stop, by
    have := span.start_le_stop
    omega⟩

/-- A token between the end of the last one and the items behind it. -/
def adjust (textSize previous : Nat) (token : Token) (behind : List Item) : Token :=
  if token.isOperand then token.withSpan (widen previous (limit textSize behind) token.span)
  else token

/-- The adjusted items, behind those already adjusted, latest first. -/
def adjustOnto (textSize previous : Nat) (adjusted : List Item) : List Item → List Item
  | [] => adjusted.reverse
  | .error error :: rest => adjustOnto textSize previous (.error error :: adjusted) rest
  | .ok token :: rest =>
      let token := adjust textSize previous token rest
      adjustOnto textSize token.span.stop (.ok token :: adjusted) rest

/-- The adjusted items behind an offset. -/
def adjustFrom (textSize previous : Nat) (items : List Item) : List Item :=
  adjustOnto textSize previous [] items

/-! ## Adjusting one item at a time -/

/-- What has been adjusted does not change what is adjusted next. -/
theorem adjustOnto_eq_append (textSize previous : Nat) (adjusted items : List Item) :
    adjustOnto textSize previous adjusted items =
      adjusted.reverse ++ adjustFrom textSize previous items := by
  induction items generalizing previous adjusted with
  | nil => simp [adjustFrom, adjustOnto]
  | cons item rest ih =>
      cases item with
      | error error =>
          rw [adjustFrom, adjustOnto, adjustOnto, ih, ih _ [_]]
          simp
      | ok token =>
          rw [adjustFrom, adjustOnto, adjustOnto, ih, ih _ [_]]
          simp

@[simp]
theorem adjustFrom_nil (textSize previous : Nat) : adjustFrom textSize previous [] = [] :=
  rfl

@[simp]
theorem adjustFrom_error (textSize previous : Nat) (error : Error) (rest : List Item) :
    adjustFrom textSize previous (.error error :: rest) =
      .error error :: adjustFrom textSize previous rest := by
  rw [adjustFrom, adjustOnto, adjustOnto_eq_append]
  rfl

@[simp]
theorem adjustFrom_ok (textSize previous : Nat) (token : Token) (rest : List Item) :
    adjustFrom textSize previous (.ok token :: rest) =
      .ok (adjust textSize previous token rest) ::
        adjustFrom textSize (adjust textSize previous token rest).span.stop rest := by
  rw [adjustFrom, adjustOnto, adjustOnto_eq_append]
  rfl

end Extent

/-- A stream with its operands widened over the gaps of a text of the given
size. -/
def widenOperands (textSize : Nat) (items : List Item) : List Item :=
  Extent.adjustFrom textSize 0 items

end OperatorMarkup
