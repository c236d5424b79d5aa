import OperatorMarkup.Proofs.Span
import OperatorMarkup.Proofs.Token.Alternation
import OperatorMarkup.Token.Extent

/-!
# Tokens that tile the text

Widening changes the spans of operands and nothing else.  Where operands and
operators alternate, the widened operands and the operators between them tile
the text, since every gap has an operand on one of its sides.
-/

namespace OperatorMarkup

/-- What a token covers: an operator its text, an operand its text with
whitespace around it, and a void operand whitespace alone. -/
def Token.Filled (lexicon : Lexicon) (source : Source) (token : Token) : Prop :=
  match token.kind with
  | .operator _ => source.Covers token.span token.text
  | .identifier | .nullary =>
      lexicon.Blank token.before ∧ ∃ after, lexicon.Blank after ∧
        source.Covers token.span (token.before ++ token.text ++ after)
  | .void => ∃ gap, lexicon.Blank gap ∧ source.Covers token.span gap

/-- What an operand takes of the gap behind it: all of it at the end or before a token
of the text, and nothing before one that was put in there. -/
def reach (gap : String) : List Token → String
  | [] => gap
  | next :: _ => if next.lexeme.isSynthetic then "" else gap

namespace Extent

variable {lexicon : Lexicon} {source : Source} {textSize previous offset : Nat} {gap : String}
  {token : Token} {tokens : List Token} {failure : Option Error}

/-- The adjusted tokens of a stream behind an offset. -/
def adjustTokens (textSize previous : Nat) (failure : Option Error) : List Token → List Token
  | [] => []
  | token :: rest =>
      let adjusted := adjust textSize previous token (stream rest failure)
      adjusted :: adjustTokens textSize adjusted.span.stop failure rest

theorem adjustFrom_stream (textSize previous : Nat) (tokens : List Token)
    (failure : Option Error) :
    adjustFrom textSize previous (stream tokens failure) =
      stream (adjustTokens textSize previous failure tokens) failure := by
  induction tokens generalizing previous with
  | nil =>
      cases failure with
      | none => rfl
      | some error => exact adjustFrom_error textSize previous error []
  | cons token tokens ih =>
      rw [stream_cons, adjustFrom_ok, ih]
      rfl

/-! ## What widening keeps -/

theorem adjust_of_isOperand (behind : List Item) (operand : token.isOperand = true) :
    adjust textSize previous token behind =
      token.withSpan (widen previous (limit textSize behind) token.span) := by
  rw [adjust, if_pos operand]

theorem adjust_of_isOperator (behind : List Item) (operator : token.isOperand = false) :
    adjust textSize previous token behind = token := by
  rw [adjust, operator, if_neg Bool.false_ne_true]

theorem adjust_isOperand (behind : List Item) :
    (adjust textSize previous token behind).isOperand = token.isOperand := by
  rw [adjust]
  split <;> rfl

theorem adjust_kind (behind : List Item) :
    (adjust textSize previous token behind).kind = token.kind := by
  rw [adjust]
  split <;> rfl

theorem adjust_fits (behind : List Item) (fits : token.Fits lexicon) :
    (adjust textSize previous token behind).Fits lexicon := by
  rw [adjust]
  split
  · exact ⟨fits.allowed, fits.spelled, fits.line_operator⟩
  · exact fits

theorem adjustTokens_fits (fits : ∀ token ∈ tokens, token.Fits lexicon) :
    ∀ token ∈ adjustTokens textSize previous failure tokens, token.Fits lexicon := by
  induction tokens generalizing previous with
  | nil => simp [adjustTokens]
  | cons token tokens ih =>
      rw [List.forall_mem_cons] at fits
      exact List.forall_mem_cons.mpr ⟨adjust_fits _ fits.1, ih fits.2⟩

theorem adjustTokens_turns {due after : Bool} (turns : Turns due tokens after) :
    Turns due (adjustTokens textSize previous failure tokens) after := by
  induction turns generalizing previous with
  | nil due => exact .nil due
  | cons turn _ ih => exact .cons ((adjust_isOperand _).trans turn) ih

theorem adjustTokens_flanked {role : Role} (flanked : Alternation.Flanked role tokens) :
    Alternation.Flanked role (adjustTokens textSize previous failure tokens) := by
  induction flanked generalizing previous with
  | last operand ends =>
      refine .last ((adjust_isOperand _).trans operand) ?_
      rwa [adjust_kind]
  | cons operand operator ends starts _ ih =>
      refine .cons ((adjust_isOperand _).trans operand) ((adjust_isOperand _).trans operator) ?_ ?_ ?_
      · rwa [adjust_kind]
      · rwa [adjust_kind, adjust_kind]
      · rw [adjust_kind]
        exact ih

/-- Delimiters are operators, and stay where they are. -/
theorem adjustTokens_delimiters (fits : ∀ token ∈ tokens, token.Fits lexicon) :
    delimiters (adjustTokens textSize previous failure tokens) = delimiters tokens := by
  induction tokens generalizing previous with
  | nil => rfl
  | cons token tokens ih =>
      rw [List.forall_mem_cons] at fits
      have rest := fun offset => @ih offset fits.2
      simp only [delimiters] at rest ⊢
      simp only [adjustTokens, List.filter_cons, rest]
      cases operand : token.isOperand with
      | false => rw [adjust_of_isOperator _ operand]
      | true =>
          rw [adjust_of_isOperand _ operand, Token.withSpan, fits.1.isDelimiter_eq_false operand,
            if_neg Bool.false_ne_true, if_neg Bool.false_ne_true]

end Extent

namespace Placed

variable {lexicon : Lexicon} {source : Source} {offset : Nat} {gap : String}
  {tokens : List Token}

theorem gap_holds (placed : Placed lexicon source offset gap tokens) :
    source.Holds offset gap ∧ lexicon.Blank gap := by
  induction placed with
  | nil holds blank => exact ⟨holds, blank⟩
  | inserted _ _ _ ih => exact ih
  | written _ holds blank => exact ⟨holds, blank⟩

/-- What an operand before a gap takes of it stands there and ends where the next token
starts. -/
theorem reach_holds (placed : Placed lexicon source offset gap tokens) :
    source.Holds offset (reach gap tokens) ∧ lexicon.Blank (reach gap tokens) ∧
      Extent.limit source.size (stream tokens none) = offset + (reach gap tokens).utf8ByteSize := by
  cases placed with
  | nil holds blank size_eq => exact ⟨holds, blank, size_eq⟩
  | inserted synthetic span_eq rest =>
      have holds : source.Holds offset ("" ++ gap) := by simpa using rest.gap_holds.1
      rw [stream_cons, Extent.limit, span_eq, reach, if_pos synthetic]
      exact ⟨holds.left, by simp [Lexicon.Blank], rfl⟩
  | written written holds blank _ start_eq =>
      rw [stream_cons, Extent.limit, reach, written, if_neg Bool.false_ne_true]
      exact ⟨holds, blank, start_eq⟩

end Placed

namespace Extent

/-! ## Tiling -/

variable {lexicon : Lexicon} {source : Source} {offset : Nat} {gap : String} {token : Token}
  {tokens : List Token}

/-- Tokens tile a part of a source, each with what it covers. -/
def Tiled (lexicon : Lexicon) (source : Source) (start : Nat) (tokens : List Token)
    (stop : Nat) : Prop :=
  Span.Tile start (tokens.map Token.span) stop ∧ ∀ token ∈ tokens, token.Filled lexicon source

theorem Tiled.cons {start stop : Nat} (start_eq : token.span.start = start)
    (filled : token.Filled lexicon source)
    (rest : Tiled lexicon source token.span.stop tokens stop) :
    Tiled lexicon source start (token :: tokens) stop :=
  ⟨.cons_of_eq start_eq rest.1, List.forall_mem_cons.mpr ⟨filled, rest.2⟩⟩

theorem widen_start {start : Nat} (stop : Nat) {span : Span} (reaches : start ≤ span.start) :
    (widen start stop span).start = start :=
  Nat.min_eq_left reaches

theorem widen_stop (start : Nat) {stop : Nat} {span : Span} (reaches : span.stop ≤ stop) :
    (widen start stop span).stop = stop :=
  Nat.max_eq_left reaches

/-- What stands between two offsets covers a span that is widened to them. -/
theorem widen_covers {stop : Nat} {span : Span} {text : String} (holds : source.Holds offset text)
    (stop_eq : stop = offset + text.utf8ByteSize) (fromStart : offset ≤ span.start)
    (toStop : span.stop ≤ stop) : source.Covers (widen offset stop span) text := by
  constructor
  · rw [widen_start stop fromStart]
    exact holds
  · rw [widen_start stop fromStart, widen_stop offset toStop]
    exact stop_eq

theorem filled_of_isOperator (operator : token.isOperand = false) :
    token.Filled lexicon source ↔ source.Covers token.span token.text := by
  rw [Token.Filled]
  cases kind_eq : token.kind with
  | operator => rfl
  | identifier | nullary | void => simp [Token.isOperand, kind_eq, Kind.isOperand,
      Kind.isOperator, Kind.fixity?] at operator

/-- Tokens are widened from an offset on to the end of a source: an operator stays where
it is and covers its text, and an operand reaches to the next token, over the gap before
it and what it takes of the one behind. -/
inductive Widens (lexicon : Lexicon) (source : Source) : Nat → List Token → List Token → Prop
  | nil : Widens lexicon source source.size [] []
  | operator {token : Token} {tokens widened : List Token} (operator : token.isOperand = false)
      (covers : source.Covers token.span token.text)
      (rest : Widens lexicon source token.span.stop tokens widened) :
      Widens lexicon source token.span.start (token :: tokens) (token :: widened)
  | void {token : Token} {tokens widened : List Token} {span : Span} {gap : String}
      (kind_eq : token.kind = .void) (blank : lexicon.Blank gap)
      (covers : source.Covers span gap)
      (stop_eq : span.stop = limit source.size (stream tokens none))
      (rest : Widens lexicon source span.stop tokens widened) :
      Widens lexicon source span.start (token :: tokens) (token.withSpan span :: widened)
  | written {token : Token} {tokens widened : List Token} {span : Span}
      (kind_cases : token.kind = .identifier ∨ token.kind = .nullary)
      (before : lexicon.Blank token.before) (after : lexicon.Blank (reach token.after tokens))
      (covers : source.Covers span (token.before ++ token.text ++ reach token.after tokens))
      (start_eq : token.span.start = span.start + token.before.utf8ByteSize)
      (inner : source.Covers token.span token.text)
      (rest : Widens lexicon source span.stop tokens widened) :
      Widens lexicon source span.start (token :: tokens) (token.withSpan span :: widened)

/-- An operand that was put in is widened over the gap behind it. -/
theorem Widens.cons_inserted (fits : token.Fits lexicon) (operand : token.isOperand = true)
    (synthetic : token.lexeme.isSynthetic = true) (span_eq : token.span = .point offset)
    (placed : Placed lexicon source offset gap tokens)
    (rest : Widens lexicon source (limit source.size (stream tokens none)) tokens
      (adjustTokens source.size (limit source.size (stream tokens none)) none tokens)) :
    Widens lexicon source offset (token :: tokens)
      (adjustTokens source.size offset none (token :: tokens)) := by
  obtain ⟨holds, blank, limit_eq⟩ := placed.reach_holds
  have kind_eq : token.kind = .void := by
    rcases fits.operand_cases operand with ⟨lexeme_eq, _⟩ | ⟨lexeme_eq, _⟩ | ⟨_, kind_eq⟩
    · rw [lexeme_eq] at synthetic
      contradiction
    · rw [lexeme_eq] at synthetic
      contradiction
    · exact kind_eq
  have fromOffset : offset ≤ token.span.start := by
    rw [span_eq]
    exact Nat.le_refl _
  have toLimit : token.span.stop ≤ limit source.size (stream tokens none) := by
    rw [span_eq, limit_eq]
    exact Nat.le_add_right _ _
  rw [adjustTokens, adjust_of_isOperand _ operand]
  have widened := Widens.void kind_eq blank (widen_covers holds limit_eq fromOffset toLimit)
    (widen_stop offset toLimit) (by rw [widen_stop offset toLimit]; exact rest)
  rw [widen_start _ fromOffset] at widened
  rw [Token.withSpan, widen_stop offset toLimit]
  exact widened

/-- An operand that was read is widened over the gaps around it. -/
theorem Widens.cons_read (fits : token.Fits lexicon) (operand : token.isOperand = true)
    (written : token.lexeme.isSynthetic = false) (holds : source.Holds offset gap)
    (blank : lexicon.Blank gap) (before_eq : token.before = gap)
    (start_eq : token.span.start = offset + gap.utf8ByteSize)
    (covers : source.Covers token.span token.text)
    (placed : Placed lexicon source token.span.stop token.after tokens)
    (rest : Widens lexicon source (limit source.size (stream tokens none)) tokens
      (adjustTokens source.size (limit source.size (stream tokens none)) none tokens)) :
    Widens lexicon source offset (token :: tokens)
      (adjustTokens source.size offset none (token :: tokens)) := by
  obtain ⟨reachHolds, reachBlank, limit_eq⟩ := placed.reach_holds
  have kind_cases : token.kind = .identifier ∨ token.kind = .nullary := by
    rcases fits.operand_cases operand with ⟨_, kind_eq⟩ | ⟨_, kind_eq⟩ | ⟨lexeme_eq, _⟩
    · exact .inl kind_eq
    · exact .inr kind_eq
    · rw [lexeme_eq] at written
      contradiction
  have fromOffset : offset ≤ token.span.start := by
    rw [start_eq]
    exact Nat.le_add_right _ _
  have toLimit : token.span.stop ≤ limit source.size (stream tokens none) := by
    rw [limit_eq]
    exact Nat.le_add_right _ _
  have inner := covers.holds
  rw [start_eq] at inner
  have size_eq : offset + (gap ++ token.text).utf8ByteSize = token.span.stop := by
    rw [covers.stop_eq, start_eq, String.utf8ByteSize_append, Nat.add_assoc]
  have widenedHolds : source.Holds offset (gap ++ token.text ++ reach token.after tokens) := by
    apply (holds.append inner).append
    rwa [size_eq]
  have widenedLimit : limit source.size (stream tokens none) =
      offset + (gap ++ token.text ++ reach token.after tokens).utf8ByteSize := by
    rw [limit_eq, String.utf8ByteSize_append, ← Nat.add_assoc, size_eq]
  rw [← before_eq] at widenedHolds widenedLimit blank start_eq
  rw [adjustTokens, adjust_of_isOperand _ operand]
  have widened := Widens.written kind_cases blank reachBlank
    (widen_covers widenedHolds widenedLimit fromOffset toLimit)
    (by rw [widen_start _ fromOffset, start_eq]) covers
    (by rw [widen_stop offset toLimit]; exact rest)
  rw [widen_start _ fromOffset] at widened
  rw [Token.withSpan, widen_stop offset toLimit]
  exact widened

/-- An operator stays where it is. -/
theorem Widens.cons_operator (operator : token.isOperand = false)
    (covers : source.Covers token.span token.text)
    (rest : Widens lexicon source token.span.stop tokens
      (adjustTokens source.size token.span.stop none tokens)) :
    Widens lexicon source token.span.start (token :: tokens)
      (adjustTokens source.size token.span.start none (token :: tokens)) := by
  rw [adjustTokens, adjust_of_isOperator _ operator]
  exact .operator operator covers rest

/-- Tokens in turn are widened, both from where an operand is due and from where an
operator is. -/
theorem adjustTokens_widens (fits : ∀ token ∈ tokens, token.Fits lexicon)
    (placed : Placed lexicon source offset gap tokens) :
    (Turns true tokens false →
      Widens lexicon source offset tokens (adjustTokens source.size offset none tokens)) ∧
    (Turns false tokens false →
      Widens lexicon source (limit source.size (stream tokens none)) tokens
        (adjustTokens source.size (limit source.size (stream tokens none)) none tokens)) := by
  induction placed with
  | nil => exact ⟨nofun, fun _ => .nil⟩
  | @inserted offset gap token tokens synthetic span_eq rest ih =>
      rw [List.forall_mem_cons] at fits
      have widens := ih fits.2
      constructor
      · rintro (_ | ⟨operand, turns⟩)
        exact .cons_inserted fits.1 operand synthetic span_eq rest (widens.2 turns)
      · rintro (_ | ⟨operator, turns⟩)
        apply Widens.cons_operator operator
        · have holds : source.Holds offset ("" ++ gap) := by simpa using rest.gap_holds.1
          rw [fits.1.text_eq_empty synthetic, span_eq]
          exact ⟨holds.left, rfl⟩
        · rw [span_eq]
          exact widens.1 turns
  | @written offset gap token tokens written holds blank before_eq start_eq covers rest ih =>
      rw [List.forall_mem_cons] at fits
      have widens := ih fits.2
      constructor
      · rintro (_ | ⟨operand, turns⟩)
        exact .cons_read fits.1 operand written holds blank before_eq start_eq covers rest
          (widens.2 turns)
      · rintro (_ | ⟨operator, turns⟩)
        exact Widens.cons_operator operator covers (widens.1 turns)

/-- Widened operands and the operators between them tile the text. -/
theorem Widens.tiled {widened : List Token} (widens : Widens lexicon source offset tokens widened) :
    Tiled lexicon source offset widened source.size := by
  induction widens with
  | nil => exact ⟨.nil _, fun _ member => absurd member List.not_mem_nil⟩
  | operator operator covers _ ih => exact .cons rfl ((filled_of_isOperator operator).mpr covers) ih
  | void kind_eq blank covers _ _ ih =>
      refine Tiled.cons rfl ?_ ih
      simp only [Token.Filled, Token.withSpan, kind_eq]
      exact ⟨_, blank, covers⟩
  | written kind_cases before after covers _ _ _ ih =>
      refine Tiled.cons rfl ?_ ih
      rcases kind_cases with kind_eq | kind_eq <;>
        simp only [Token.Filled, Token.withSpan, kind_eq] <;>
        exact ⟨before, _, after, covers⟩

end Extent

end OperatorMarkup
