import OperatorMarkup.Proofs.Operator.Levels
import OperatorMarkup.Proofs.Token.Extent
import OperatorMarkup.Proofs.Token.FixityChoice
import OperatorMarkup.Proofs.Token.Run
import OperatorMarkup.Token.Stream

/-!
# The token stream of a source

What is known of a token stream, from all of its five steps: its tokens fit their
lexemes and alternate, they tile the text unless it ends in an error, and their
delimiters nest as the brackets of the text do.
-/

namespace OperatorMarkup

open Operator

/-- An error is about some of a source, and neither about the order of operators
nor about a defect. -/
structure Error.Located (source : Source) (error : Error) : Prop where
  ordered : ∀ left right leftSpan rightSpan, error ≠ .unknownOrder left right leftSpan rightSpan
  external : ∀ defect span, error ≠ .internal defect span
  inside : ∃ span, error.location? source = some ⟨source, span⟩ ∧ span.start < span.stop ∧
    span.stop ≤ source.size

/-- What is known of the tokens of a stream and of the error that ends it. -/
structure Streams (lexicon : Lexicon) (source : Source) (tokens : List Token)
    (failure : Option Error) : Prop where
  fits : ∀ token ∈ tokens, token.Fits lexicon
  turns : ∃ after, Turns true tokens after ∧ (failure = none → after = false)
  tiled : failure = none → Extent.Tiled lexicon source 0 tokens source.size
  nests : failure = none →
    (nest [] (delimiterOperators lexicon tokens)).bind unclosed =
      answerOf (blame lexicon (brackets lexicon source))
  blames : ∀ error, nest [] (delimiterOperators lexicon tokens) = .error error →
    ∃ culprit, blame lexicon (brackets lexicon source) = some culprit ∧
      error = culprit.unmatched
  located : ∀ error ∈ failure, error.Located source
  seated : ∀ bracket ∈ brackets lexicon source, bracket.span.start < bracket.span.stop ∧
    bracket.span.stop ≤ source.size

variable {lexicon : Lexicon} {source : Source} {tokens : List Token} {failure : Option Error}

/-! ## Errors -/

theorem noToken_located {span : Span} (nonempty : span.start < span.stop)
    (inside : span.stop ≤ source.size) : (Error.noToken span).Located source :=
  ⟨nofun, nofun, span, rfl, nonempty, inside⟩

/-- Undecided operators were read from the text, so they cover some of it. -/
theorem ambiguousNullary_located {operators : List Token} (nonempty : operators ≠ [])
    (undecided : ∀ token ∈ operators,
      token.kind = .operator .ambiguous ∧ token.Sound lexicon source) :
    (Error.ambiguousNullary operators).Located source := by
  have seated : ∀ span ∈ operators.map Token.span,
      span.start < span.stop ∧ span.stop ≤ source.size := by
    intro span member
    obtain ⟨token, tokenMem, rfl⟩ := List.mem_map.mp member
    obtain ⟨kind_eq, sound⟩ := undecided token tokenMem
    apply sound.seated
    rw [FixityChoice.Decides.lexeme_eq_of_undecided sound.fits kind_eq]
    rfl
  obtain ⟨first, member⟩ := List.exists_mem_of_ne_nil _ (mt List.map_eq_nil_iff.mp nonempty)
  have firstSeated := seated first member
  have kept : first.isEmpty = false := by
    rw [Bool.eq_false_iff, ne_eq, Span.isEmpty_iff]
    exact Nat.ne_of_lt firstSeated.1
  obtain ⟨merged, merge_eq⟩ := Span.exists_merge (mt List.map_eq_nil_iff.mp nonempty)
  have upper := (Span.merge_within merge_eq fun span spanMem =>
    ⟨Nat.zero_le span.start, (seated span spanMem).2⟩).2
  refine ⟨nofun, nofun, merged, congrArg (Option.map (Location.mk source)) merge_eq, ?_, upper⟩
  have around := Span.merge_covers merge_eq member kept
  exact Nat.lt_of_le_of_lt around.1 (Nat.lt_of_lt_of_le firstSeated.1 around.2)

theorem filterMap_stream (tokens : List Token) (failure : Option Error) :
    (stream tokens failure).filterMap Except.toOption = tokens := by
  induction tokens with
  | nil => cases failure <;> rfl
  | cons token tokens ih =>
      change token :: (stream tokens failure).filterMap Except.toOption = _
      rw [ih]

theorem blame_filter (tokens : List Token) :
    blame lexicon (tokens.filter Token.isBracket) = blame lexicon tokens := by
  rw [blame, blame, scanBrackets_filter]

/-! ## The steps -/

/-- What is known of the tokens that a step writes and of the error that ends
them. -/
structure Passes (lexicon : Lexicon) (source : Source) (tokens : List Token)
    (failure : Option Error) : Prop where
  sound : ∀ token ∈ tokens, token.Sound lexicon source
  placed : failure = none → ∃ gap, Placed lexicon source 0 gap tokens
  nests : failure = none →
    (nest [] (delimiterOperators lexicon tokens)).bind unclosed =
      answerOf (blame lexicon (brackets lexicon source))
  blames : ∀ error, nest [] (delimiterOperators lexicon tokens) = .error error →
    ∃ culprit, blame lexicon (brackets lexicon source) = some culprit ∧
      error = culprit.unmatched
  located : ∀ error ∈ failure, error.Located source

theorem brackets_eq_filter {read : List Token}
    (read_eq : tokenize lexicon source = stream read failure) :
    brackets lexicon source = read.filter Token.isBracket := by
  rw [brackets, read_eq, filterMap_stream]

theorem brackets_seated : ∀ bracket ∈ brackets lexicon source,
    bracket.span.start < bracket.span.stop ∧ bracket.span.stop ≤ source.size := by
  obtain ⟨read, failure, gap, read_eq, readSound, _⟩ := tokenize_placed lexicon source
  rw [brackets_eq_filter read_eq]
  intro bracket member
  obtain ⟨_, seated, written⟩ := readSound bracket (List.mem_filter.mp member).1
  exact seated written

theorem loweredStream_passes (lexicon : Lexicon) (source : Source) :
    ∃ tokens failure, loweredStream lexicon source = stream tokens failure ∧
      Passes lexicon source tokens failure := by
  obtain ⟨read, started, gap, read_eq, readSound, readPlaced, readLocated⟩ :=
    tokenize_placed lexicon source
  obtain ⟨lowered, failure, lowers, lowered_eq⟩ :=
    Indentation.stage.exists_emits none read started
  obtain rfl := Indentation.stage_inserts.ending_eq lowers
  have written : ∀ token ∈ read, token.Fits lexicon ∧ token.lexeme.isSynthetic = false :=
    fun token member => ⟨(readSound token member).1, (readSound token member).2.2⟩
  have blame_eq : blame lexicon (brackets lexicon source) = blame lexicon read := by
    rw [brackets_eq_filter read_eq, blame_filter]
  refine ⟨lowered, failure, ?_, ?_, ?_, ?_, ?_, ?_⟩
  · rw [loweredStream, read_eq]
    exact lowered_eq
  · exact Indentation.emits_sound lowers fun token member =>
      ⟨(readSound token member).1, (readSound token member).2.1⟩
  · rintro rfl
    exact ⟨gap, Indentation.stage_inserts.placed lowers (readPlaced rfl)⟩
  · rintro rfl
    rw [blame_eq]
    exact Indentation.nest_eq_of_blame lowers written
  · intro error failed
    rw [blame_eq]
    exact Indentation.exists_blame_of_nest_error lowers written failed
  · intro error failed
    obtain ⟨span, rfl, nonempty, inside⟩ := readLocated error failed
    exact noToken_located nonempty inside

/-- Deciding fixities leaves delimiters alone, up to an operator that could stand
alone in more than one way. -/
theorem decidedStream_passes (lexicon : Lexicon) (source : Source) :
    ∃ tokens failure, decidedStream lexicon source = stream tokens failure ∧
      Passes lexicon source tokens failure := by
  obtain ⟨lowered, readFailure, lowered_eq, passes⟩ := loweredStream_passes lexicon source
  obtain ⟨decided, failure, decides, decided_eq⟩ :=
    (FixityChoice.stage source.size).exists_emits ⟨[], true⟩ lowered readFailure
  obtain ⟨taken, rest, split_eq, decidesAll, complete⟩ :=
    FixityChoice.emits_decides decides (by simp)
  rw [List.reverse_nil, List.nil_append] at split_eq
  have takenSound : ∀ token ∈ taken, token.Sound lexicon source :=
    fun token member => passes.sound token (split_eq ▸ List.mem_append_left rest member)
  have delimiters_eq : delimiterOperators lexicon decided = delimiterOperators lexicon taken := by
    rw [delimiterOperators, delimiterOperators, FixityChoice.Decides.delimiters_eq decidesAll
      fun token member => (takenSound token member).fits]
  refine ⟨decided, failure, ?_, ?_, ?_, ?_, ?_, ?_⟩
  · rw [decidedStream, lowered_eq]
    exact decided_eq
  · exact FixityChoice.Decides.forall_sound decidesAll takenSound
  · rintro rfl
    obtain rfl := decides.failure_eq_none
    rw [complete rfl, List.append_nil] at split_eq
    obtain ⟨gap, placed⟩ := passes.placed rfl
    rw [split_eq] at placed
    exact ⟨gap, FixityChoice.Decides.placed decidesAll placed⟩
  · rintro rfl
    obtain rfl := decides.failure_eq_none
    rw [complete rfl, List.append_nil] at split_eq
    rw [delimiters_eq, ← split_eq]
    exact passes.nests rfl
  · intro error failed
    rw [delimiters_eq] at failed
    apply passes.blames
    rw [split_eq, delimiterOperators_append, nest_append, failed]
    rfl
  · rintro error rfl
    rcases FixityChoice.emits_error decides (by simp) passes.sound with
      earlier | ⟨operators, nonempty, undecided, rfl⟩
    · exact passes.located error earlier
    · exact ambiguousNullary_located nonempty undecided

/-- What is put in so that operands and operators alternate is no delimiter. -/
theorem alternatingStream_passes (lexicon : Lexicon) (source : Source) :
    ∃ tokens failure, alternatingStream lexicon source = stream tokens failure ∧
      Passes lexicon source tokens failure ∧
      ∃ after, Turns true tokens after ∧ (failure = none → after = false) := by
  obtain ⟨decided, ended, decided_eq, passes⟩ := decidedStream_passes lexicon source
  obtain ⟨alternating, failure, alternates, alternating_eq⟩ :=
    Alternation.stage.exists_emits ⟨.between, 0, ""⟩ decided ended
  obtain rfl := Alternation.stage_inserts.ending_eq alternates
  have delimiters_eq : delimiterOperators lexicon alternating =
      delimiterOperators lexicon decided := by
    rw [delimiterOperators, delimiterOperators, Alternation.emits_delimiters alternates]
  refine ⟨alternating, failure, ?_, ⟨?_, ?_, ?_, ?_, ?_⟩, Alternation.emits_turns alternates⟩
  · rw [alternatingStream, decided_eq]
    exact alternating_eq
  · exact Alternation.emits_sound alternates passes.sound
  · rintro rfl
    obtain ⟨gap, placed⟩ := passes.placed rfl
    exact ⟨gap, Alternation.stage_inserts.placed alternates placed⟩
  · rw [delimiters_eq]
    exact passes.nests
  · rw [delimiters_eq]
    exact passes.blames
  · exact passes.located

/-! ## The stream -/

/-- The token stream of a source is of tokens and at most one error, about which
all of the above is known. -/
theorem tokenStream_streams (lexicon : Lexicon) (source : Source) :
    ∃ tokens failure, tokenStream lexicon source = stream tokens failure ∧
      Streams lexicon source tokens failure := by
  obtain ⟨alternating, failure, alternating_eq, passes, after, turns, balanced⟩ :=
    alternatingStream_passes lexicon source
  have fits : ∀ token ∈ alternating, token.Fits lexicon :=
    fun token member => (passes.sound token member).fits
  have delimiters_eq : delimiterOperators lexicon
      (Extent.adjustTokens source.size 0 failure alternating) =
        delimiterOperators lexicon alternating := by
    rw [delimiterOperators, delimiterOperators, Extent.adjustTokens_delimiters fits]
  refine ⟨Extent.adjustTokens source.size 0 failure alternating, failure, ?_,
    Extent.adjustTokens_fits fits, ⟨after, Extent.adjustTokens_turns turns, balanced⟩, ?_, ?_, ?_,
    passes.located, brackets_seated⟩
  · rw [tokenStream, alternating_eq]
    exact Extent.adjustFrom_stream source.size 0 alternating failure
  · rintro rfl
    obtain rfl := balanced rfl
    obtain ⟨gap, placed⟩ := passes.placed rfl
    exact ((Extent.adjustTokens_widens fits placed).1 turns).tiled
  · rw [delimiters_eq]
    exact passes.nests
  · rw [delimiters_eq]
    exact passes.blames

/-- All of it is known of the tokens and the error that a stream is found to be. -/
theorem streams_of_eq {lexicon : Lexicon} {source : Source} {tokens : List Token}
    {failure : Option Error} (stream_eq : tokenStream lexicon source = stream tokens failure) :
    Streams lexicon source tokens failure := by
  obtain ⟨written, ending, written_eq, streams⟩ := tokenStream_streams lexicon source
  obtain ⟨rfl, rfl⟩ := stream_inj (written_eq.symm.trans stream_eq)
  exact streams

/-! ## The steps of a stream -/

/-- What each of the steps writes for a source. -/
structure Steps (lexicon : Lexicon) (source : Source) where
  /-- The tokens that are read. -/
  read : List Token
  /-- The error behind them. -/
  readFailure : Option Error
  /-- The tokens with indentation made explicit. -/
  lowered : List Token
  /-- The tokens with fixities decided. -/
  decided : List Token
  /-- The error behind these. -/
  failure : Option Error
  /-- The tokens with operands and operators in turn. -/
  alternating : List Token
  read_eq : tokenize lexicon source = stream read readFailure
  lowers : Indentation.stage.Emits none read readFailure lowered readFailure
  decides : (FixityChoice.stage source.size).Emits ⟨[], true⟩ lowered readFailure decided failure
  alternates : Alternation.stage.Emits ⟨.between, 0, ""⟩ decided failure alternating failure

/-- The tokens of the last step. -/
def Steps.written (steps : Steps lexicon source) : List Token :=
  Extent.adjustTokens source.size 0 steps.failure steps.alternating

namespace Steps

variable (steps : Steps lexicon source)

theorem loweredStream_eq :
    loweredStream lexicon source = stream steps.lowered steps.readFailure := by
  rw [loweredStream, steps.read_eq]
  exact steps.lowers.outputFrom_eq

theorem decidedStream_eq : decidedStream lexicon source = stream steps.decided steps.failure := by
  rw [decidedStream, steps.loweredStream_eq]
  exact steps.decides.outputFrom_eq

theorem tokenStream_eq : tokenStream lexicon source = stream steps.written steps.failure := by
  have alternating_eq : alternatingStream lexicon source =
      stream steps.alternating steps.failure := by
    rw [alternatingStream, steps.decidedStream_eq]
    exact steps.alternates.outputFrom_eq
  rw [tokenStream, alternating_eq]
  exact Extent.adjustFrom_stream source.size 0 steps.alternating steps.failure

end Steps

/-- A token stream comes about in its steps. -/
theorem exists_steps (lexicon : Lexicon) (source : Source) :
    ∃ steps : Steps lexicon source,
      tokenStream lexicon source = stream steps.written steps.failure := by
  obtain ⟨read, readFailure, _, read_eq, _⟩ := tokenize_placed lexicon source
  obtain ⟨lowered, loweredFailure, lowers, -⟩ :=
    Indentation.stage.exists_emits none read readFailure
  obtain rfl := Indentation.stage_inserts.ending_eq lowers
  obtain ⟨decided, failure, decides, -⟩ :=
    (FixityChoice.stage source.size).exists_emits ⟨[], true⟩ lowered loweredFailure
  obtain ⟨alternating, ending, alternates, -⟩ :=
    Alternation.stage.exists_emits ⟨.between, 0, ""⟩ decided failure
  obtain rfl := Alternation.stage_inserts.ending_eq alternates
  let steps : Steps lexicon source := ⟨read, loweredFailure, lowered, decided, ending, alternating,
    read_eq, lowers, decides, alternates⟩
  exact ⟨steps, steps.tokenStream_eq⟩

namespace Steps

variable (steps : Steps lexicon source)

theorem read_sound :
    ∀ token ∈ steps.read, token.Sound lexicon source ∧ token.lexeme.isSynthetic = false := by
  obtain ⟨read, failure, gap, read_eq, readSound, _⟩ := tokenize_placed lexicon source
  obtain ⟨rfl, -⟩ := stream_inj (read_eq.symm.trans steps.read_eq)
  exact fun token member => ⟨⟨(readSound token member).1, (readSound token member).2.1⟩,
    (readSound token member).2.2⟩

theorem lowered_sound : ∀ token ∈ steps.lowered, token.Sound lexicon source :=
  Indentation.emits_sound steps.lowers fun token member => (steps.read_sound token member).1

theorem readFailure_eq_none (complete : steps.failure = none) : steps.readFailure = none := by
  have decides := steps.decides
  rw [complete] at decides
  exact decides.failure_eq_none

/-- Where no step fails, every undecided operator is decided. -/
theorem decidesAll (complete : steps.failure = none) :
    List.Forall₂ FixityChoice.Decides steps.lowered steps.decided := by
  obtain ⟨taken, rest, split_eq, decides, none_eq⟩ :=
    FixityChoice.emits_decides steps.decides (by simp)
  rw [none_eq complete, List.append_nil] at split_eq
  rw [show steps.lowered = taken from split_eq]
  exact decides

theorem decided_sound (complete : steps.failure = none) :
    ∀ token ∈ steps.decided, token.Sound lexicon source :=
  FixityChoice.Decides.forall_sound (steps.decidesAll complete) steps.lowered_sound

theorem filter_delimiters (tokens : List Token) :
    (delimiters tokens).filter Token.isBracket = tokens.filter Token.isBracket := by
  rw [delimiters, List.filter_filter]
  apply List.filter_congr
  intro token _
  cases lexeme_eq : token.lexeme <;> simp [Token.isBracket, lexeme_eq, Lexeme.isDelimiter]

/-- The brackets of a stream without an error are those of the text. -/
theorem filter_isBracket (complete : steps.failure = none) :
    steps.written.filter Token.isBracket = brackets lexicon source := by
  have alternatingSound := Alternation.emits_sound steps.alternates (steps.decided_sound complete)
  rw [brackets_eq_filter steps.read_eq, ← Indentation.emits_brackets steps.lowers,
    ← filter_delimiters steps.lowered, ← filter_delimiters steps.written, written,
    Extent.adjustTokens_delimiters fun token member => (alternatingSound token member).fits,
    Alternation.emits_delimiters steps.alternates,
    FixityChoice.Decides.delimiters_eq (steps.decidesAll complete)
      fun token member => (steps.lowered_sound token member).fits]

/-- In a stream without an error, operators that lack an operand have a void one. -/
theorem flanked (complete : steps.failure = none) :
    Alternation.Flanked .between steps.written := by
  have alternates := steps.alternates
  rw [complete] at alternates
  exact Extent.adjustTokens_flanked (Alternation.emits_flanked alternates)

theorem turns (complete : steps.failure = none) : Turns true steps.alternating false := by
  obtain ⟨after, turns, balanced⟩ := Alternation.emits_turns steps.alternates
  rw [balanced complete] at turns
  exact turns

/-- In a stream without an error, the tokens lie one behind the other before operands are
widened. -/
theorem placed (complete : steps.failure = none) :
    ∃ gap, Placed lexicon source 0 gap steps.alternating := by
  obtain ⟨read, failure, gap, read_eq, _, readPlaced, _⟩ := tokenize_placed lexicon source
  obtain ⟨rfl, rfl⟩ := stream_inj (read_eq.symm.trans steps.read_eq)
  have alternates := steps.alternates
  have lowers := steps.lowers
  rw [complete] at alternates
  rw [steps.readFailure_eq_none complete] at readPlaced lowers
  have lowered := Indentation.stage_inserts.placed lowers (readPlaced rfl)
  have decided := FixityChoice.Decides.placed (steps.decidesAll complete) lowered
  exact ⟨gap, Alternation.stage_inserts.placed alternates decided⟩

/-- In a stream without an error, the tokens of the step before are widened. -/
theorem widens (complete : steps.failure = none) :
    Extent.Widens lexicon source 0 steps.alternating steps.written := by
  have sound := Alternation.emits_sound steps.alternates (steps.decided_sound complete)
  obtain ⟨gap, placed⟩ := steps.placed complete
  rw [written, complete]
  exact (Extent.adjustTokens_widens (fun token member => (sound token member).fits) placed).1
    (steps.turns complete)

end Steps

end OperatorMarkup
