import OperatorMarkup.Proofs.Operator.Nesting
import OperatorMarkup.Proofs.Token.Brackets
import OperatorMarkup.Proofs.Token.Crossing

/-!
# Indentation nests with brackets

No indent or dedent is put in while a bracket is open, so the delimiters that
wait for their partners are the open brackets inside the open indents.  A scan
of all delimiters of a lowered stream then goes as one of the brackets alone,
and the dedents at the end meet the innermost bracket that is still open.
-/

namespace OperatorMarkup

open Operator

/-- The error of a bracket without its partner. -/
def Token.unmatched (token : Token) : Error :=
  .bracketMismatch token.text token.span

/-- What a scan answers that names the bracket at fault, where there is one. -/
def answerOf : Option Token → Except Error Unit
  | none => .ok ()
  | some culprit => .error culprit.unmatched

/-- The operators of the delimiters among some tokens. -/
def delimiterOperators (lexicon : Lexicon) (tokens : List Token) : List Operator :=
  (delimiters tokens).map (ofToken lexicon)

variable {lexicon : Lexicon} {token opener closer : Token} {opened tokens : List Token}
  {pending : List Operator}

theorem delimiterOperators_append (first second : List Token) :
    delimiterOperators lexicon (first ++ second) =
      delimiterOperators lexicon first ++ delimiterOperators lexicon second := by
  simp [delimiterOperators, delimiters]

theorem delimiterOperators_of_isDelimiter (delimiter : token.lexeme.isDelimiter = true) :
    delimiterOperators lexicon [token] = [ofToken lexicon token] := by
  simp [delimiterOperators, delimiters, delimiter]

theorem delimiterOperators_of_not_isDelimiter (other : token.lexeme.isDelimiter = false) :
    delimiterOperators lexicon [token] = [] := by
  simp [delimiterOperators, delimiters, other]

/-! ## Delimiters that meet -/

section Meeting

theorem mismatch_of_isBracket (bracket : token.isBracket = true) :
    (ofToken lexicon token).mismatch = token.unmatched := by
  simp only [Token.isBracket, Bool.or_eq_true, beq_iff_eq] at bracket
  rcases bracket with lexeme_eq | lexeme_eq <;>
    simp [mismatch, name, Operator.span, ofToken, lexeme_eq, Token.unmatched]

theorem text_ne_of_bracket (fits : token.Fits lexicon) (bracket : token.isBracket = true)
    {text : String} (long : 2 ≤ text.toList.length) : text ≠ token.text := by
  rintro rfl
  have spelled := fits.spelled
  simp only [Token.isBracket, Bool.or_eq_true, beq_iff_eq] at bracket
  rcases bracket with lexeme_eq | lexeme_eq
  · rw [lexeme_eq] at spelled
    obtain ⟨c, _, text_eq⟩ := spelled
    simp [text_eq] at long
  · rw [lexeme_eq] at spelled
    obtain ⟨c, _, _, text_eq⟩ := spelled
    simp [text_eq] at long

theorem indent_accepts_dedent (indent_eq : opener.lexeme = .indent)
    (dedent_eq : closer.lexeme = .dedent) :
    (ofToken lexicon opener).right.accepts (ofToken lexicon closer).left = true := by
  simp [ofToken, faces, indent_eq, dedent_eq, Face.accepts]

theorem opener_refuses_dedent (fits : opener.Fits lexicon) (opener_eq : opener.lexeme = .opener)
    (dedent_eq : closer.lexeme = .dedent) :
    (ofToken lexicon opener).right.accepts (ofToken lexicon closer).left = false := by
  have long := text_ne_of_bracket fits (by simp [Token.isBracket, opener_eq])
    (show 2 ≤ indentText.toList.length by decide)
  simp [ofToken, faces, opener_eq, dedent_eq, Face.accepts, long]

theorem indent_refuses_closer (fits : closer.Fits lexicon) (indent_eq : opener.lexeme = .indent)
    (closer_eq : closer.lexeme = .closer) :
    (ofToken lexicon opener).right.accepts (ofToken lexicon closer).left = false := by
  have long := text_ne_of_bracket fits (by simp [Token.isBracket, closer_eq])
    (show 2 ≤ dedentText.toList.length by decide)
  simp [ofToken, faces, indent_eq, closer_eq, Face.accepts, long]

theorem getD_eq_iff {found : Option String} {text : String} (nonempty : text ≠ "") :
    found.getD "" = text ↔ found = some text := by
  cases found with
  | none => simp [nonempty.symm]
  | some other => simp

/-- An opener joins with a closer exactly where the two brackets pair. -/
theorem opener_accepts_closer_iff (openerFits : opener.Fits lexicon)
    (closerFits : closer.Fits lexicon) (opener_eq : opener.lexeme = .opener)
    (closer_eq : closer.lexeme = .closer) :
    (ofToken lexicon opener).right.accepts (ofToken lexicon closer).left = true ↔
      lexicon.Pairs opener.text closer.text := by
  have openerText : opener.text ≠ "" := by
    intro empty
    exact openerFits.text_ne_empty (by rw [opener_eq]; rfl) (by rw [empty]; rfl)
  have closerText : closer.text ≠ "" := by
    intro empty
    exact closerFits.text_ne_empty (by rw [closer_eq]; rfl) (by rw [empty]; rfl)
  simp only [ofToken, faces, opener_eq, closer_eq, Face.accepts, Bool.and_eq_true, beq_iff_eq,
    getD_eq_iff openerText, getD_eq_iff closerText, Lexicon.Pairs]

end Meeting

/-! ## Waiting delimiters -/

namespace Indentation

/-- The delimiters that wait are the open brackets inside the open indents, and the
stage counts both. -/
def Mirrors (lexicon : Lexicon) (depth : Nat) (levels : Levels) (opened : List Token)
    (pending : List Operator) : Prop :=
  ∃ indents : List Token, pending = (opened ++ indents).map (ofToken lexicon) ∧
    depth = opened.length ∧ levels.enclosing.length = indents.length ∧
    (∀ opener ∈ opened, opener.lexeme = .opener ∧ opener.Fits lexicon) ∧
    ∀ indent ∈ indents, indent.lexeme = .indent

theorem left_required_of_dedent (dedent_eq : closer.lexeme = .dedent) :
    (ofToken lexicon closer).left.merge.isRequired = true := by
  simp [ofToken, faces, dedent_eq, Merge.isRequired]

theorem left_required_of_closer (closer_eq : closer.lexeme = .closer) :
    (ofToken lexicon closer).left.merge.isRequired = true := by
  simp [ofToken, faces, closer_eq, Merge.isRequired]

/-- Dedents close the indents that wait. -/
theorem nest_dedents (dedent_eq : closer.lexeme = .dedent) (count : Nat) {indents : List Token}
    (enough : count ≤ indents.length) (allIndents : ∀ indent ∈ indents, indent.lexeme = .indent) :
    nest (indents.map (ofToken lexicon)) (List.replicate count (ofToken lexicon closer)) =
      .ok ((indents.drop count).map (ofToken lexicon)) := by
  induction count generalizing indents with
  | zero => rfl
  | succ count ih =>
      cases indents with
      | nil => simp at enough
      | cons indent indents =>
          rw [List.forall_mem_cons] at allIndents
          rw [List.map_cons, List.replicate_succ, nest_cons,
            nestStep_of_closing (left_required_of_dedent dedent_eq),
            if_pos (indent_accepts_dedent allIndents.1 dedent_eq)]
          exact ih (by simpa using enough) allIndents.2

theorem delimiterOperators_lineBreakBetween (token next : Token) :
    delimiterOperators lexicon (lineBreakBetween token next) = [] := by
  rw [lineBreakBetween]
  split <;> rfl

theorem delimiterOperators_replicate (count : Nat) (token : Token) :
    delimiterOperators lexicon (List.replicate count (inserted token .suffixOp .dedent)) =
      List.replicate count (ofToken lexicon (inserted token .suffixOp .dedent)) := by
  have kept : delimiters (List.replicate count (inserted token .suffixOp .dedent)) =
      List.replicate count (inserted token .suffixOp .dedent) := by
    rw [delimiters, List.filter_eq_self]
    intro filler member
    rw [List.eq_of_mem_replicate member]
    rfl
  rw [delimiterOperators, kept, List.map_replicate]

/-- What is put in between two tokens keeps the count of open levels. -/
theorem cross_nest (state : State) (next : Token)
    (mirrors : Mirrors lexicon state.depth state.levels opened pending) :
    ∃ after, nest pending (delimiterOperators lexicon (cross state next).2) = .ok after ∧
      Mirrors lexicon state.depth (cross state next).1 opened after := by
  obtain ⟨indents, pending_eq, depth_eq, levels_eq, allOpeners, allIndents⟩ := id mirrors
  simp only [cross]
  split
  · exact ⟨pending, rfl, mirrors⟩
  · split
    · refine ⟨pending, ?_, mirrors⟩
      split
      · rfl
      · rw [delimiterOperators_lineBreakBetween]
        rfl
    · next notDeep =>
        have empty : opened = [] := List.eq_nil_of_length_eq_zero (by omega)
        subst empty
        split
        · refine ⟨ofToken lexicon (inserted state.token .infixOp .indent) :: pending, rfl,
            inserted state.token .infixOp .indent :: indents, ?_, depth_eq, ?_, allOpeners, ?_⟩
          · rw [pending_eq]
            rfl
          · simp [Levels.enter, levels_eq]
          · exact List.forall_mem_cons.mpr ⟨rfl, allIndents⟩
        · have counted := state.levels.leave_length next.spaceBefore
          refine ⟨(indents.drop (state.levels.leave next.spaceBefore).1).map (ofToken lexicon),
            ?_, indents.drop (state.levels.leave next.spaceBefore).1, rfl, depth_eq, ?_,
            allOpeners, ?_⟩
          · rw [delimiterOperators_append, delimiterOperators_replicate,
              delimiterOperators_lineBreakBetween, List.append_nil, pending_eq, List.nil_append]
            exact nest_dedents rfl _ (by omega) allIndents
          · change (state.levels.leave next.spaceBefore).2.enclosing.length = _
            rw [List.length_drop]
            omega
          · exact fun indent member => allIndents indent (List.mem_of_mem_drop member)

/-- An opening bracket waits in both scans. -/
theorem opener_nest {depth : Nat} {levels : Levels} (fits : token.Fits lexicon)
    (lexeme_eq : token.lexeme = .opener) (mirrors : Mirrors lexicon depth levels opened pending) :
    nest pending (delimiterOperators lexicon [token]) = .ok (ofToken lexicon token :: pending) ∧
      Mirrors lexicon (depthAfter depth token) levels (token :: opened)
        (ofToken lexicon token :: pending) := by
  obtain ⟨indents, pending_eq, depth_eq, levels_eq, allOpeners, allIndents⟩ := mirrors
  have notClosing : (ofToken lexicon token).left.merge.isRequired = false := by
    simp [ofToken, faces, lexeme_eq, Face.immediate, Merge.isRequired]
  have waits : (ofToken lexicon token).right.merge.isRequired = true := by
    simp [ofToken, faces, lexeme_eq, Merge.isRequired]
  constructor
  · rw [delimiterOperators_of_isDelimiter (by rw [lexeme_eq]; rfl), nest_cons,
      nestStep_of_not_closing notClosing, if_pos waits]
    rfl
  · refine ⟨indents, by rw [pending_eq]; rfl, ?_, levels_eq, ?_, allIndents⟩
    · simp [depthAfter, lexeme_eq, depth_eq]
    · exact List.forall_mem_cons.mpr ⟨⟨lexeme_eq, fits⟩, allOpeners⟩

/-- A closing bracket behind indents alone is refused, and named itself. -/
theorem closer_refused {indents : List Token} (fits : token.Fits lexicon)
    (lexeme_eq : token.lexeme = .closer)
    (allIndents : ∀ indent ∈ indents, indent.lexeme = .indent) :
    nestStep (indents.map (ofToken lexicon)) (ofToken lexicon token) = .error token.unmatched := by
  have bracket : token.isBracket = true := by simp [Token.isBracket, lexeme_eq]
  have closing : (ofToken lexicon token).left.merge.isRequired = true :=
    left_required_of_closer lexeme_eq
  rw [← @mismatch_of_isBracket lexicon token bracket]
  cases indents with
  | nil => simp [nestStep, closing]
  | cons indent indents =>
      have indent_eq := allIndents indent List.mem_cons_self
      rw [List.map_cons, nestStep_of_closing closing,
        indent_refuses_closer fits indent_eq lexeme_eq]
      simp [culprit, ofToken, indent_eq, lexeme_eq, Lexeme.isSynthetic]

/-- A closing bracket meets the same opening bracket in both scans. -/
theorem closer_nest {depth : Nat} {levels : Levels} (fits : token.Fits lexicon)
    (lexeme_eq : token.lexeme = .closer) (mirrors : Mirrors lexicon depth levels opened pending) :
    Except.Agree (Mirrors lexicon (depthAfter depth token) levels)
      ((bracketStep lexicon opened token).mapError Token.unmatched)
      (nest pending (delimiterOperators lexicon [token])) := by
  obtain ⟨indents, rfl, depth_eq, levels_eq, allOpeners, allIndents⟩ := mirrors
  rw [delimiterOperators_of_isDelimiter (by rw [lexeme_eq]; rfl), nest_cons]
  cases opened with
  | nil =>
      rw [List.nil_append, closer_refused fits lexeme_eq allIndents]
      simp [bracketStep, lexeme_eq, Except.mapError, Except.bind, Except.Agree]
  | cons opener outer =>
      rw [List.forall_mem_cons] at allOpeners
      obtain ⟨⟨opener_eq, openerFits⟩, outerOpeners⟩ := allOpeners
      have accepts := opener_accepts_closer_iff openerFits fits opener_eq lexeme_eq
      rw [bracketStep_closer lexeme_eq, List.cons_append, List.map_cons,
        nestStep_of_closing (left_required_of_closer lexeme_eq)]
      by_cases pairs : lexicon.Pairs opener.text token.text
      · rw [if_pos pairs, if_pos (accepts.mpr pairs)]
        refine ⟨indents, rfl, ?_, levels_eq, outerOpeners, allIndents⟩
        simp [depthAfter, lexeme_eq, depth_eq]
      · have openerBracket : opener.isBracket = true := by simp [Token.isBracket, opener_eq]
        rw [if_neg pairs, if_neg (fun joined => pairs (accepts.mp joined))]
        have blamed : culprit (ofToken lexicon opener) (ofToken lexicon token) =
            ofToken lexicon opener := by
          simp [culprit, ofToken, opener_eq, Lexeme.isSynthetic]
        rw [blamed, mismatch_of_isBracket openerBracket]
        rfl

/-- A token that was read goes through both scans alike. -/
theorem token_nest {depth : Nat} {levels : Levels} (fits : token.Fits lexicon)
    (written : token.lexeme.isSynthetic = false)
    (mirrors : Mirrors lexicon depth levels opened pending) :
    Except.Agree (Mirrors lexicon (depthAfter depth token) levels)
      ((bracketStep lexicon opened token).mapError Token.unmatched)
      (nest pending (delimiterOperators lexicon [token])) := by
  cases lexeme_eq : token.lexeme with
  | indent | dedent | lineBreak | juxtaposition | filler =>
      rw [lexeme_eq] at written
      contradiction
  | word | operator | separator =>
      rw [bracketStep_of_not_isBracket (by simp [Token.isBracket, lexeme_eq]),
        delimiterOperators_of_not_isDelimiter (by rw [lexeme_eq]; rfl)]
      have stays : depthAfter depth token = depth := by simp [depthAfter, lexeme_eq]
      rw [stays]
      exact mirrors
  | opener =>
      obtain ⟨nest_eq, deeper⟩ := opener_nest fits lexeme_eq mirrors
      rw [bracketStep_opener lexeme_eq, nest_eq]
      exact deeper
  | closer => exact closer_nest fits lexeme_eq mirrors

/-! ## Streams -/

/-- The same, where no token may have been read. -/
def MirrorsAt (lexicon : Lexicon) (state : Option State) (opened : List Token)
    (pending : List Operator) : Prop :=
  match state with
  | none => opened = [] ∧ pending = []
  | some state => Mirrors lexicon state.depth state.levels opened pending

theorem step_nest {state : Option State} (fits : token.Fits lexicon)
    (written : token.lexeme.isSynthetic = false)
    (mirrors : MirrorsAt lexicon state opened pending) :
    Except.Agree (MirrorsAt lexicon (step state token).1)
      ((bracketStep lexicon opened token).mapError Token.unmatched)
      (nest pending (delimiterOperators lexicon (step state token).2)) := by
  cases state with
  | none =>
      obtain ⟨rfl, rfl⟩ := mirrors
      have started : Mirrors lexicon 0 ⟨token.spaceBefore, []⟩ [] [] :=
        ⟨[], rfl, rfl, rfl, by simp, by simp⟩
      exact token_nest fits written started
  | some state =>
      obtain ⟨after, cross_eq, crossed⟩ := cross_nest state token mirrors
      change Except.Agree _ _ (nest pending (delimiterOperators lexicon
        ((cross state token).2 ++ [token])))
      rw [delimiterOperators_append, nest_append, cross_eq]
      exact token_nest fits written crossed

/-- At the end, the dedents meet the innermost bracket that is still open. -/
theorem finish_nest {state : Option State} (mirrors : MirrorsAt lexicon state opened pending) :
    (nest pending (delimiterOperators lexicon (finish state))).bind unclosed =
      answerOf opened.head? := by
  cases state with
  | none =>
      obtain ⟨rfl, rfl⟩ := mirrors
      rfl
  | some state =>
      obtain ⟨indents, pending_eq, _, levels_eq, allOpeners, allIndents⟩ := mirrors
      rw [finish, delimiterOperators_replicate, levels_eq, pending_eq]
      cases opened with
      | nil =>
          rw [List.nil_append, nest_dedents rfl _ (Nat.le_refl _) allIndents, List.drop_length]
          rfl
      | cons opener outer =>
          rw [List.forall_mem_cons] at allOpeners
          obtain ⟨⟨opener_eq, openerFits⟩, _⟩ := allOpeners
          have bracket : opener.isBracket = true := by simp [Token.isBracket, opener_eq]
          rw [List.cons_append, List.map_cons]
          cases indents with
          | nil =>
              change Except.error (ofToken lexicon opener).mismatch = _
              rw [mismatch_of_isBracket bracket]
              rfl
          | cons indent indents =>
              have blamed : culprit (ofToken lexicon opener)
                  (ofToken lexicon (inserted state.token .suffixOp .dedent)) =
                  ofToken lexicon opener := by
                simp [culprit, ofToken, opener_eq, Lexeme.isSynthetic]
              rw [List.length_cons, List.replicate_succ, nest_cons,
                nestStep_of_closing (left_required_of_dedent rfl),
                opener_refuses_dedent openerFits opener_eq rfl, if_neg Bool.false_ne_true, blamed,
                mismatch_of_isBracket bracket]
              rfl

variable {written : List Token} {failure ending : Option Error}

/-- A scan of the brackets that were read, and one of all delimiters written up to
those at the end, go alike. -/
theorem emits_nest {state : Option State}
    (emits : stage.Emits state tokens failure written ending)
    (fits : ∀ token ∈ tokens, token.Fits lexicon ∧ token.lexeme.isSynthetic = false)
    (mirrors : MirrorsAt lexicon state opened pending) :
    ∃ during last, written = during ++ last ∧
      Except.Agree
        (fun opened pending => ∃ reached, MirrorsAt lexicon reached opened pending ∧
          (failure = none → last = finish reached) ∧ (failure ≠ none → last = []))
        ((scanBrackets lexicon opened tokens).mapError Token.unmatched)
        (nest pending (delimiterOperators lexicon during)) := by
  induction emits generalizing opened pending with
  | @finished state written finish_eq =>
      cases finish_eq
      exact ⟨[], _, rfl, state, mirrors, fun _ => rfl, fun failed => absurd rfl failed⟩
  | unfinished finish_eq => cases finish_eq
  | @failed state error => exact ⟨[], [], rfl, state, mirrors, nofun, fun _ => rfl⟩
  | refused _ _ step_eq => cases step_eq
  | @step state next token tokens now later failure ending step_eq _ ih =>
      rw [List.forall_mem_cons] at fits
      have step := step_nest fits.1.1 fits.1.2 mirrors
      rw [show Indentation.step state token = (next, now) from Except.ok.inj step_eq] at step
      cases bracket_eq : bracketStep lexicon opened token with
      | error culprit =>
          rw [bracket_eq] at step
          have failed := Except.agree_error_iff.mp step
          refine ⟨now, later, rfl, ?_⟩
          rw [scanBrackets_cons, bracket_eq, failed]
          exact rfl
      | ok opened' =>
          rw [bracket_eq] at step
          obtain ⟨pending', nest_eq, mirrors'⟩ := Except.agree_ok_iff.mp step
          obtain ⟨during, last, rfl, agree⟩ := ih fits.2 mirrors'
          refine ⟨now ++ during, last, by simp, ?_⟩
          rw [scanBrackets_cons, bracket_eq, delimiterOperators_append, nest_append, nest_eq]
          exact agree

/-- All delimiters of a lowered stream nest exactly where the brackets do, and else
the same bracket is named. -/
theorem nest_eq_of_blame
    (emits : stage.Emits none tokens none written ending)
    (fits : ∀ token ∈ tokens, token.Fits lexicon ∧ token.lexeme.isSynthetic = false) :
    (nest [] (delimiterOperators lexicon written)).bind unclosed =
      answerOf (blame lexicon tokens) := by
  obtain ⟨during, last, rfl, agree⟩ := emits_nest emits fits
    (show MirrorsAt lexicon none [] [] from ⟨rfl, rfl⟩)
  rw [delimiterOperators_append, nest_append, blame]
  cases scan_eq : scanBrackets lexicon [] tokens with
  | error culprit =>
      rw [scan_eq] at agree
      rw [Except.agree_error_iff.mp agree]
      rfl
  | ok opened =>
      rw [scan_eq] at agree
      obtain ⟨pending, nest_eq, reached, mirrors, last_eq, _⟩ := Except.agree_ok_iff.mp agree
      rw [nest_eq, last_eq rfl]
      exact finish_nest mirrors

/-- Where delimiters of a lowered stream do not nest, the bracket at fault is
named, also where the stream ends in an error. -/
theorem exists_blame_of_nest_error {error : Error}
    (emits : stage.Emits none tokens failure written ending)
    (fits : ∀ token ∈ tokens, token.Fits lexicon ∧ token.lexeme.isSynthetic = false)
    (failed : nest [] (delimiterOperators lexicon written) = .error error) :
    ∃ culprit, blame lexicon tokens = some culprit ∧ error = culprit.unmatched := by
  cases failure with
  | none =>
      have scan := nest_eq_of_blame emits fits
      rw [failed] at scan
      cases blame_eq : blame lexicon tokens with
      | none =>
          rw [blame_eq] at scan
          contradiction
      | some culprit =>
          rw [blame_eq] at scan
          exact ⟨culprit, rfl, Except.error.inj scan⟩
  | some other =>
      obtain ⟨during, last, rfl, agree⟩ := emits_nest emits fits
        (show MirrorsAt lexicon none [] [] from ⟨rfl, rfl⟩)
      rw [blame]
      cases scan_eq : scanBrackets lexicon [] tokens with
      | error culprit =>
          rw [scan_eq] at agree
          rw [delimiterOperators_append, nest_append, Except.agree_error_iff.mp agree] at failed
          exact ⟨culprit, rfl, (Except.error.inj failed).symm⟩
      | ok opened =>
          rw [scan_eq] at agree
          obtain ⟨pending, nest_eq, _, _, _, last_eq⟩ := Except.agree_ok_iff.mp agree
          rw [last_eq (Option.some_ne_none other), List.append_nil, nest_eq] at failed
          contradiction

/-! ## The brackets of a lowered stream -/

/-- No bracket is put in. -/
theorem emits_brackets {state : Option State}
    (emits : stage.Emits state tokens failure written ending) :
    written.filter Token.isBracket = tokens.filter Token.isBracket := by
  refine emits_filter ?_ emits
  rintro token filler ⟨fixity, lexeme, rfl, ⟨rfl, _⟩ | ⟨rfl, _⟩ | ⟨rfl, _⟩⟩ <;> rfl

end Indentation

end OperatorMarkup
