import Mathlib
import OperatorMarkup.Proofs.Token.Stream

/-!
# What the tokens of a stream cover

The tokens of a stream lie one behind the other over the whole text.  Several tokens may
be put in at one gap, and still each character of the gap belongs to one operand: to the
last one that was put in or read behind the gap, and else to the one that was read before
it.
-/

namespace OperatorMarkup

/-- What a token covers, given the tokens behind it: an operator its own text, a void
operand whitespace, and any other operand its text with the gap before it and what it
takes of the gap behind. -/
structure Token.Occupies (lexicon : Lexicon) (source : Source) (token : Token)
    (behind : List Token) : Prop where
  operator : token.isOperator = true → source.slice token.span = token.text ∧
    (token.lexeme.isSynthetic = true → token.text = "")
  void : token.kind = .void → lexicon.Blank (source.slice token.span)
  operand : token.isOperand = true → token.kind ≠ .void →
    source.slice token.span = token.before ++ token.text ++ reach token.after behind

variable {lexicon : Lexicon} {source : Source} {offset : Nat} {tokens widened : List Token}

namespace Extent

/-- Widening leaves alone what an operand takes of the gap behind it. -/
theorem Widens.reach_eq (widens : Widens lexicon source offset tokens widened) (gap : String) :
    reach gap widened = reach gap tokens := by
  cases widens <;> rfl

/-- What lies behind some of the widened tokens is widened in turn. -/
theorem Widens.exists_behind {front back : List Token}
    (widens : Widens lexicon source offset tokens (front ++ back)) :
    ∃ offset rest, Widens lexicon source offset rest back ∧ rest ⊆ tokens := by
  induction front generalizing offset tokens with
  | nil => exact ⟨offset, tokens, widens, List.Subset.refl tokens⟩
  | cons token front ih =>
      cases widens with
      | operator _ _ rest | void _ _ _ _ rest | written _ _ _ _ _ _ rest =>
          obtain ⟨offset, left, widens, subset⟩ := ih rest
          exact ⟨offset, left, widens, List.subset_cons_of_subset _ subset⟩

/-- The first of some widened tokens covers what it is to cover before the others. -/
theorem Widens.occupies {token : Token} {behind : List Token}
    (widens : Widens lexicon source offset tokens (token :: behind))
    (fits : ∀ token ∈ tokens, token.Fits lexicon) : token.Occupies lexicon source behind := by
  cases widens with
  | operator operator covers _ =>
      constructor
      · exact fun _ => ⟨covers.slice_eq, (fits token List.mem_cons_self).text_eq_empty⟩
      · intro kind_eq
        rw [Token.isOperand, kind_eq] at operator
        contradiction
      · intro operand
        rw [operator] at operand
        contradiction
  | @void first _ _ span gap kind_eq blank covers _ _ =>
      constructor
      · intro operator
        simp only [Token.isOperator, Token.withSpan, kind_eq] at operator
        contradiction
      · intro _
        rw [show source.slice (first.withSpan span).span = gap from covers.slice_eq]
        exact blank
      · exact fun _ other => absurd kind_eq other
  | written kind_cases _ _ covers _ _ rest =>
      constructor
      · intro operator
        rcases kind_cases with kind_eq | kind_eq <;>
          simp only [Token.isOperator, Token.withSpan, kind_eq] at operator <;> contradiction
      · intro kind_eq
        rcases kind_cases with other | other <;>
          simp only [Token.withSpan, other] at kind_eq <;> contradiction
      · intro _ _
        rw [rest.reach_eq]
        exact covers.slice_eq

end Extent

/-- In a token stream without an error, operands and operators alternate from a first
operand to a last one and tile the text.  An operator covers its own text, a void operand
whitespace, and any other operand its text with the gap before it and with the one behind
it, unless an operator was put in there. -/
theorem tokenStream_tiles (stream_eq : tokenStream lexicon source = tokens.map .ok) :
    Turns true tokens false ∧ Span.Tile 0 (tokens.map Token.span) source.size ∧
      ∀ front token back, tokens = front ++ token :: back →
        token.Occupies lexicon source back := by
  obtain ⟨steps, steps_eq⟩ := exists_steps lexicon source
  rw [stream_eq, ← stream_none] at steps_eq
  obtain ⟨rfl, complete⟩ := stream_inj steps_eq
  have widens := steps.widens complete.symm
  have sound := Alternation.emits_sound steps.alternates (steps.decided_sound complete.symm)
  refine ⟨Extent.adjustTokens_turns (steps.turns complete.symm), widens.tiled.1, ?_⟩
  intro front token back split_eq
  rw [split_eq] at widens
  obtain ⟨_, rest, behind, subset⟩ := widens.exists_behind
  exact behind.occupies fun token member => (sound token (subset member)).fits

/-- A line that is continued, with a word behind the operator that begins the next. -/
def continuedText : Source :=
  { text := "x =\n\t; y " }

/-- The tokens of the stream of the line. -/
def continuedTokens : List Token :=
  (tokenStream .standard continuedText).filterMap Except.toOption

theorem tokenStream_tiles_continued :
    tokenStream .standard continuedText = continuedTokens.map .ok ∧
      Turns true continuedTokens false ∧
      Span.Tile 0 (continuedTokens.map Token.span) continuedText.size ∧
      ∀ front token back, continuedTokens = front ++ token :: back →
        token.Occupies .standard continuedText back := by
  have stream_eq : tokenStream .standard continuedText = continuedTokens.map .ok := by cbv
  exact ⟨stream_eq, tokenStream_tiles stream_eq⟩

end OperatorMarkup
