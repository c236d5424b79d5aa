import Mathlib
import OperatorMarkup.Proofs.Parse.Outcome

/-!
# Which texts parsing accepts

A text whose stream has no error has a tree exactly where its brackets are well
nested; neither its lines nor its markers can prevent one.  Every error that
parsing answers with is about some characters of the text, and none is about the
order of operators or about a defect.
-/

namespace OperatorMarkup

open Grouping Operator

variable {lexicon : Lexicon} {source : Source}

/-! ## Brackets -/

theorem isBracket_of_mem_brackets {bracket : Token} (member : bracket ∈ brackets lexicon source) :
    bracket.isBracket = true :=
  (List.mem_filter.mp member).2

/-- Parsing a text whose stream has no error succeeds exactly where the brackets of
the text are well nested, and else names the bracket that a scan of them finds at
fault. -/
theorem parse_iff_nested
    (complete : ∀ item ∈ tokenStream lexicon source, ∃ token, item = .ok token) :
    ((∃ root, parse lexicon source = .ok root) ↔ Nested lexicon (brackets lexicon source)) ∧
      (¬ Nested lexicon (brackets lexicon source) →
        ∃ culprit ∈ brackets lexicon source, culprit.isBracket = true ∧
          blame lexicon (brackets lexicon source) = some culprit ∧
          parse lexicon source = .error (.bracketMismatch culprit.text culprit.span)) := by
  obtain ⟨tokens, failure, stream_eq, streams⟩ := tokenStream_streams lexicon source
  rw [stream_eq] at complete
  obtain rfl := failure_eq_none complete
  have nested_iff := @nested_iff_blame_eq_none lexicon (brackets lexicon source)
    fun bracket member => isBracket_of_mem_brackets member
  rw [nested_iff, parse]
  rcases groupedTree_cases stream_eq streams with
    ⟨blame_eq, tree, node, _, grouped⟩ | ⟨culprit, blame_eq, refused⟩
  · rw [grouped, blame_eq]
    constructor
    · exact ⟨fun _ => rfl, fun _ => ⟨_, rfl⟩⟩
    · exact fun broken => absurd rfl broken
  · have member := mem_of_blame blame_eq
    rw [refused, blame_eq]
    constructor
    · constructor
      · rintro ⟨root, accepted⟩
        contradiction
      · intro accepted
        contradiction
    · intro _
      exact ⟨culprit, member, isBracket_of_mem_brackets member, rfl, rfl⟩

/-- An opening bracket without its partner. -/
def unclosedBracket : Source :=
  ⟨"[a", none, 0⟩

theorem complete_of_isOk {items : List Item} (allOk : items.all Except.isOk = true) :
    ∀ item ∈ items, ∃ token, item = .ok token := by
  intro item member
  cases item with
  | ok token => exact ⟨token, rfl⟩
  | error error => exact absurd (List.all_eq_true.mp allOk _ member) Bool.false_ne_true

theorem parse_iff_nested_unclosed :
    (∀ item ∈ tokenStream .standard unclosedBracket, ∃ token, item = .ok token) ∧
      ((∃ root, parse .standard unclosedBracket = .ok root) ↔
        Nested .standard (brackets .standard unclosedBracket)) ∧
      (¬ Nested .standard (brackets .standard unclosedBracket) →
        ∃ culprit ∈ brackets .standard unclosedBracket, culprit.isBracket = true ∧
          blame .standard (brackets .standard unclosedBracket) = some culprit ∧
          parse .standard unclosedBracket =
            .error (.bracketMismatch culprit.text culprit.span)) :=
  ⟨complete_of_isOk (by decide +kernel), parse_iff_nested (complete_of_isOk (by decide +kernel))⟩

/-! ## Errors -/

/-- Every error of parsing is about some characters of the text. -/
theorem located_of_parse_eq_error {error : Error} (failed : parse lexicon source = .error error) :
    error.Located source := by
  obtain ⟨tokens, failure, stream_eq, streams⟩ := tokenStream_streams lexicon source
  have blamed : ∀ culprit, blame lexicon (brackets lexicon source) = some culprit →
      culprit.unmatched.Located source := by
    intro culprit blame_eq
    have seated := streams.seated culprit (mem_of_blame blame_eq)
    exact ⟨nofun, nofun, culprit.span, rfl, seated⟩
  rw [parse, Except.map_eq_error_iff] at failed
  cases failure with
  | none =>
      rcases groupedTree_cases stream_eq streams with
        ⟨_, tree, node, _, grouped⟩ | ⟨culprit, blame_eq, refused⟩
      · rw [grouped] at failed
        contradiction
      · rw [refused] at failed
        cases failed
        exact blamed culprit blame_eq
  | some other =>
      rcases groupedTree_of_failure stream_eq streams with
        refused | ⟨culprit, blame_eq, refused⟩
      · rw [refused] at failed
        cases failed
        exact streams.located error rfl
      · rw [refused] at failed
        cases failed
        exact blamed culprit blame_eq

/-- Any two operators have an order or fail to pair, and an error of parsing is
neither about an order that is missing nor about a defect, but about some
characters of the text. -/
theorem order_complete_and_parse_located (lexicon : Lexicon) (source : Source) :
    (∀ first second : Token, first.isOperator = true → second.isOperator = true →
      ∀ left right leftSpan rightSpan,
        order (ofToken lexicon first) (ofToken lexicon second) ≠
          .error (.unknownOrder left right leftSpan rightSpan)) ∧
    ∀ error, parse lexicon source = .error error →
      (∀ left right leftSpan rightSpan,
        error ≠ .unknownOrder left right leftSpan rightSpan) ∧
      (∀ defect span, error ≠ .internal defect span) ∧
      ∃ location, error.location? source = some location ∧
        location.span.start < location.span.stop ∧ location.span.stop ≤ source.size := by
  constructor
  · intro first second _ _ left right leftSpan rightSpan unknown
    have firstRuled := ofToken_ruled lexicon first
    have secondRuled := ofToken_ruled lexicon second
    rcases order_cases firstRuled.2 secondRuled.1 with ⟨decision, ordered⟩ | mismatched
    · rw [ordered] at unknown
      contradiction
    · rw [mismatched] at unknown
      exact nomatch Except.error.inj unknown
  · intro error failed
    obtain ⟨ordered, external, span, location_eq, nonempty, inside⟩ :=
      located_of_parse_eq_error failed
    exact ⟨ordered, external, _, location_eq, nonempty, inside⟩

theorem order_complete_and_parse_located_unclosed :
    parse .standard unclosedBracket = .error (.bracketMismatch "[" ⟨0, 1, by decide⟩) ∧
      ∃ location, (Error.bracketMismatch "[" ⟨0, 1, by decide⟩).location? unclosedBracket =
          some location ∧
        location.span.start < location.span.stop ∧
        location.span.stop ≤ unclosedBracket.size := by
  have failed : parse .standard unclosedBracket =
      .error (.bracketMismatch "[" ⟨0, 1, by decide⟩) := by cbv
  exact ⟨failed, ((order_complete_and_parse_located .standard unclosedBracket).2 _ failed).2.2⟩

end OperatorMarkup
