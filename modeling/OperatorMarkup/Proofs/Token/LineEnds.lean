import Mathlib
import OperatorMarkup.Proofs.Token.Lowering
import OperatorMarkup.Proofs.Token.OperatorRuns
import OperatorMarkup.Proofs.Token.Spelling
import OperatorMarkup.Proofs.Token.Stream

/-!
# Operators at line ends

A gap that ends a line has an operator of the indentation in it, or lies next to a bracket or
to an operator that has its line to itself.  But for the last of these an operator next to
the gap has no operand on the other side of it.
-/

namespace OperatorMarkup

open FixityChoice

/-! ## Related lists -/

theorem exists_of_forall₂_append {α β : Type} {related : α → β → Prop} {first second : List α}
    {list : List β} (pairs : List.Forall₂ related (first ++ second) list) :
    ∃ first' second', list = first' ++ second' ∧ List.Forall₂ related first first' ∧
      List.Forall₂ related second second' := by
  induction first generalizing list with
  | nil => exact ⟨[], list, rfl, .nil, pairs⟩
  | cons head first ih =>
      cases pairs with
      | cons pair rest =>
          obtain ⟨first', second', rfl, pairs, pairs'⟩ := ih rest
          exact ⟨_ :: first', second', rfl, .cons pair pairs, pairs'⟩

theorem exists_of_mem_forall₂ {α β : Type} {related : α → β → Prop} {first : List α}
    {second : List β} (pairs : List.Forall₂ related first second) {y : β} (member : y ∈ second) :
    ∃ x ∈ first, related x y := by
  induction pairs with
  | nil => contradiction
  | cons pair _ ih =>
      rcases List.mem_cons.mp member with rfl | later
      · exact ⟨_, List.mem_cons_self, pair⟩
      · obtain ⟨x, xMember, related⟩ := ih later
        exact ⟨x, List.mem_cons_of_mem _ xMember, related⟩

namespace Indentation

variable {lexicon : Lexicon} {state : State} {token next : Token} {levels : Levels}
  {gap front back before behind tokens written : List Token}

/-! ## Gaps with a line end -/

theorem prefixContext_inserted (front : List Token) (token : Token) (lexeme : Lexeme) :
    PrefixContext (front ++ [inserted token .infixOp lexeme]) :=
  (prefixContext_concat (by simp [inserted, Token.synthetic]) front).mpr rfl

theorem suffixContext_inserted (token : Token) (fixity : Fixity) (lexeme : Lexeme)
    (fixity_eq : fixity = .infixOp ∨ fixity = .suffixOp) (back : List Token) :
    SuffixContext (inserted token fixity lexeme :: back) := by
  apply (suffixContext_cons _ _).mpr
  rcases fixity_eq with rfl | rfl <;> rfl

/-- An operand has to start behind a line end, unless what comes before it is an operator that
has its line to itself. -/
theorem Crosses.prefixContext_or (crosses : Crosses state next levels gap)
    (newLine : 0 < state.token.heightAfter) (fits : state.token.Fits lexicon)
    (operator : next.lexeme = .operator) (inline : next.lineOperator = false)
    (front : List Token) :
    PrefixContext (front ++ state.token :: gap) ∨
      state.token.lineOperator = true ∧
        ∃ count, gap = List.replicate count (inserted state.token .suffixOp .dedent) := by
  have line : ∀ count, PrefixContext (front ++ state.token ::
        (List.replicate count (inserted state.token .suffixOp .dedent) ++
          lineBreakBetween state.token next)) ∨
      state.token.lineOperator = true ∧ ∃ count', List.replicate count
        (inserted state.token .suffixOp .dedent) ++ lineBreakBetween state.token next =
          List.replicate count' (inserted state.token .suffixOp .dedent) := by
    intro count
    rcases lineBreakBetween_cases state.token next with ⟨none_eq, alone⟩ | some_eq
    · right
      rw [none_eq, List.append_nil]
      exact ⟨by simpa [inline] using alone, count, rfl⟩
    · left
      rw [some_eq, ← List.cons_append, ← List.append_assoc]
      exact prefixContext_inserted _ _ _
  cases crosses with
  | flat level => omega
  | edge _ _ edge =>
      rcases edge with opener | closer
      · refine .inl ((prefixContext_concat ?_ front).mpr ?_) <;> rw [fits.allows opener]
        · simp
        · rfl
      · rw [operator] at closer
        contradiction
  | inside => exact line 0
  | deeper =>
      left
      rw [List.append_cons]
      exact prefixContext_inserted _ _ _
  | outer => exact line _

/-- An operand has to end before a line end, unless what comes behind it is an operator that
has its line to itself. -/
theorem Crosses.suffixContext_or (crosses : Crosses state next levels gap)
    (newLine : 0 < state.token.heightAfter) (fits : next.Fits lexicon)
    (operator : state.token.lexeme = .operator) (inline : state.token.lineOperator = false)
    (back : List Token) :
    SuffixContext (gap ++ next :: back) ∨ next.lineOperator = true ∧ gap = [] := by
  have line : SuffixContext (lineBreakBetween state.token next ++ next :: back) ∨
      next.lineOperator = true ∧ lineBreakBetween state.token next = [] := by
    rcases lineBreakBetween_cases state.token next with ⟨none_eq, alone⟩ | some_eq
    · exact .inr ⟨by simpa [inline] using alone, none_eq⟩
    · left
      rw [some_eq]
      exact suffixContext_inserted _ _ _ (.inl rfl) _
  cases crosses with
  | flat level => omega
  | edge _ _ edge =>
      rcases edge with opener | closer
      · rw [operator] at opener
        contradiction
      · refine .inl ((suffixContext_cons next back).mpr ?_)
        rw [fits.allows closer]
        rfl
  | inside => exact line
  | deeper => exact .inl (suffixContext_inserted _ _ _ (.inl rfl) _)
  | outer =>
      cases (state.levels.leave next.spaceBefore).1 with
      | zero => exact line
      | succ count => exact .inl (suffixContext_inserted _ _ _ (.inr rfl) _)

/-! ## Neighbours in a lowered stream -/

/-- A token of the text is known by those of the text before it. -/
theorem eq_of_texts_eq (split_eq : front ++ token :: back = before ++ next :: behind)
    (plain : token.lexeme.isIndentation = false) (nextPlain : next.lexeme.isIndentation = false)
    (texts_eq : texts front = texts before) : front = before ∧ token = next ∧ back = behind := by
  rcases append_cons_eq_append split_eq with ⟨rest, rfl, -⟩ | ⟨rest, rfl, rest_eq⟩
  · rw [texts_append, texts_cons plain] at texts_eq
    simp at texts_eq
  · cases rest with
    | nil =>
        obtain ⟨rfl, rfl⟩ := List.cons.inj rest_eq
        exact ⟨List.append_nil before, rfl, rfl⟩
    | cons head rest =>
        obtain ⟨rfl, -⟩ := List.cons.inj rest_eq
        rw [texts_append, texts_cons nextPlain] at texts_eq
        simp at texts_eq

section Neighbours

variable (plain : ∀ other ∈ tokens, other.lexeme.isIndentation = false)
  (emits : stage.Emits none tokens none written none)
  (written_eq : written = front ++ token :: back) (tokenPlain : token.lexeme.isIndentation = false)

include plain emits written_eq tokenPlain

theorem tokens_eq_of_written_eq : tokens = texts front ++ token :: texts back := by
  rw [← emits_texts plain emits, written_eq, texts_append, texts_cons tokenPlain]

/-- Before a token of the text there is none, or the last one before the gap. -/
theorem exists_before : front = [] ∨ ∃ before left levels depth,
    front = before ++ left :: (cross ⟨left, levels, depth⟩ token).2 ∧
      tokens = texts before ++ left :: token :: texts back := by
  have tokens_eq := tokens_eq_of_written_eq plain emits written_eq tokenPlain
  rcases List.eq_nil_or_concat (texts front) with none_eq | ⟨others, left, others_eq⟩
  · have head_eq := emits_head emits
    rw [tokens_eq, none_eq, List.nil_append, List.head?_cons] at head_eq
    obtain ⟨behind, behind_eq⟩ := List.head?_eq_some_iff.mp head_eq
    have alone : front ++ token :: back = [] ++ token :: behind := written_eq.symm.trans behind_eq
    exact .inl (eq_of_texts_eq alone tokenPlain tokenPlain none_eq).1
  · rw [List.concat_eq_append] at others_eq
    rw [others_eq, List.append_assoc] at tokens_eq
    obtain ⟨before, levels, depth, behind, behind_eq, tracks, rest⟩ :=
      exists_tracks plain emits tokens_eq
    obtain ⟨behind, rfl, -⟩ := emits_cons rest
    rw [written_eq, ← List.cons_append, ← List.append_assoc] at behind_eq
    have same : texts front =
        texts (before ++ left :: (cross ⟨left, levels, depth⟩ token).2) := by
      rw [others_eq, texts_append, texts_cons tracks.plain, texts_cross, tracks.texts_eq]
    refine .inr ⟨before, left, levels, depth,
      (eq_of_texts_eq behind_eq tokenPlain tokenPlain same).1, ?_⟩
    rw [tokens_eq, tracks.texts_eq]
    rfl

/-- Behind a token of the text there are dedents alone, or the first one behind the gap. -/
theorem exists_behind :
    (∃ count, back = List.replicate count (inserted token .suffixOp .dedent)) ∨
      ∃ levels depth next behind,
        back = (cross ⟨token, levels, depth⟩ next).2 ++ next :: behind ∧ next ∈ tokens := by
  have tokens_eq := tokens_eq_of_written_eq plain emits written_eq tokenPlain
  obtain ⟨before, levels, depth, behind, behind_eq, tracks, rest⟩ :=
    exists_tracks plain emits tokens_eq
  rw [written_eq] at behind_eq
  obtain ⟨-, -, rfl⟩ := eq_of_texts_eq behind_eq tokenPlain tokenPlain tracks.texts_eq.symm
  cases back_eq : texts back with
  | nil =>
      rw [back_eq] at rest
      exact .inl ⟨_, emits_nil rest⟩
  | cons next later =>
      rw [back_eq] at rest
      obtain ⟨behind, gap_eq, -⟩ := emits_cons rest
      refine .inr ⟨levels, depth, next, behind, gap_eq, ?_⟩
      rw [tokens_eq, back_eq]
      simp

end Neighbours

end Indentation

/-! ## Operators of a decided stream -/

/-- Behind an operator that has its line to itself, and that trails what is before it or
stands alone, there is nothing but returns from deeper lines. -/
def BehindLineOperator (tokens : List Token) : Prop :=
  ∃ front operator dedents, tokens = front ++ operator :: dedents ∧
    (∀ dedent ∈ dedents, dedent.lexeme = .dedent) ∧ operator.lineOperator = true ∧
    (operator.kind = .operator .suffixOp ∨ operator.kind = .nullary)

/-- An operator that has its line to itself, and that leads what is behind it, comes
first. -/
def BeforeLineOperator (tokens : List Token) : Prop :=
  ∃ operator back, tokens = operator :: back ∧ operator.lineOperator = true ∧
    operator.kind = .operator .prefixOp

namespace Steps

variable {lexicon : Lexicon} {source : Source} (steps : Steps lexicon source)
  {token next : Token} {front back : List Token}

theorem settles (complete : steps.failure = none) :
    Settles source.size steps.lowered steps.decided := by
  have decides := steps.decides
  rw [complete, steps.readFailure_eq_none complete] at decides
  exact emits_settles decides

theorem plain : ∀ token ∈ steps.read, token.lexeme.isIndentation = false := by
  intro token member
  have written := (steps.read_sound token member).2
  cases lexeme_eq : token.lexeme <;> rw [lexeme_eq] at written <;> first | rfl | contradiction

/-- The operators of a text are undecided when they are read. -/
theorem undecided (member : token ∈ steps.read) (operator : token.lexeme = .operator) :
    token.kind = .operator .ambiguous := by
  have read : .ok token ∈ tokenize lexicon source := by
    rw [steps.read_eq]
    exact List.mem_append_left _ (List.mem_map_of_mem member)
  exact (tokenize_isRead read).undecided operator

/-- An operator of a lowered stream is one of the text. -/
theorem mem_read (complete : steps.failure = none) (member : token ∈ steps.lowered)
    (operator : token.lexeme = .operator) : token ∈ steps.read := by
  have lowers := steps.lowers
  rw [steps.readFailure_eq_none complete] at lowers
  rw [← Indentation.emits_texts steps.plain lowers]
  exact List.mem_filter.mpr ⟨member, by rw [operator]; rfl⟩

/-- The gap behind a token is the one before the next. -/
theorem gap_eq (complete : steps.failure = none)
    (read_eq : steps.read = front ++ token :: next :: back) : token.after = next.before := by
  have tokens_eq := steps.read_eq
  rw [steps.readFailure_eq_none complete, stream_none] at tokens_eq
  obtain ⟨last, reads, -⟩ := Cursor.readAll_eq_map_ok_iff.mp tokens_eq
  exact (reads.precedes _ _ _ _ read_eq).gap_eq

/-- A decided token comes from a lowered one, and those around it from those around that. -/
theorem exists_lowered (complete : steps.failure = none)
    (decided_eq : steps.decided = front ++ token :: back) :
    ∃ before origin behind, steps.lowered = before ++ origin :: behind ∧
      List.Forall₂ Assigns before front ∧ Assigns origin token ∧
      List.Forall₂ Assigns behind back := by
  have each := (steps.settles complete).each
  rw [decided_eq] at each
  obtain ⟨before, rest, lowered_eq, fronts, rests⟩ :=
    exists_of_forall₂_append (List.Forall₂.flip (R := flip Assigns) each)
  obtain ⟨origin, behind, assigns, backs, rfl⟩ := List.forall₂_cons_left_iff.mp rests
  exact ⟨before, origin, behind, lowered_eq, fronts.flip, assigns, backs.flip⟩

/-- Behind a line end an operator leads an operand or stands for one, unless it stands behind
one that has its line to itself. -/
theorem lineStart (complete : steps.failure = none)
    (decided_eq : steps.decided = front ++ token :: back) (operator : token.lexeme = .operator)
    (inline : token.lineOperator = false) (newLine : 0 < token.heightBefore) :
    token.kind = .operator .prefixOp ∨ token.kind = .nullary ∨ BehindLineOperator front := by
  have settles := steps.settles complete
  have lowers := steps.lowers
  rw [steps.readFailure_eq_none complete] at lowers
  obtain ⟨before, origin, behind, lowered_eq, fronts, assigns, -⟩ :=
    steps.exists_lowered complete decided_eq
  rw [assigns.same] at operator inline newLine
  have member : origin ∈ steps.read := steps.mem_read complete (by simp [lowered_eq]) operator
  have undecided := steps.undecided member operator
  have leads : PrefixContext before →
      token.kind = .operator .prefixOp ∨ token.kind = .nullary := fun context =>
    settles.leads lowered_eq undecided context decided_eq fronts.length_eq.symm
  rcases Indentation.exists_before steps.plain lowers lowered_eq (steps.plain origin member) with
    rfl | ⟨others, left, levels, depth, rfl, read_eq⟩
  · exact (leads prefixContext_nil).imp_right .inl
  · have gap_eq := steps.gap_eq complete read_eq
    have leftMember : left ∈ steps.read := by simp [read_eq]
    have leftFits := (steps.read_sound left leftMember).1.fits
    have leftNewLine : 0 < left.heightAfter := by
      rw [Token.heightAfter, gap_eq]
      exact newLine
    have crosses := Indentation.cross_crosses ⟨left, levels, depth⟩ origin
    rcases crosses.prefixContext_or leftNewLine leftFits operator inline others with
      context | ⟨alone, count, count_eq⟩
    · exact (leads context).imp_right .inl
    · have leftUndecided := steps.undecided leftMember (leftFits.line_operator alone).1
      rw [count_eq] at lowered_eq fronts
      obtain ⟨earlier, rest, rfl, earliers, rests⟩ := exists_of_forall₂_append fronts
      obtain ⟨last, dedents, leftAssigns, dedentsAssign, rfl⟩ :=
        List.forall₂_cons_left_iff.mp rests
      have kinds : (last.kind = .operator .suffixOp ∨ last.kind = .nullary) ∨
          token.kind = .operator .prefixOp := by
        rw [List.append_assoc, List.cons_append] at lowered_eq decided_eq
        -- Without a dedent between them the two are of one run.
        cases count with
        | zero =>
            cases dedentsAssign
            have parts := settles.parts lowered_eq ⟨leftUndecided, undecided⟩ decided_eq
              earliers.length_eq.symm
            exact parts.imp_left .inl
        | succ count =>
            have context : SuffixContext (List.replicate (count + 1)
                (Indentation.inserted left .suffixOp .dedent) ++ origin :: behind) :=
              Indentation.suffixContext_inserted _ _ _ (.inr rfl) _
            exact .inl (settles.trails lowered_eq leftUndecided context decided_eq
              earliers.length_eq.symm)
      rcases kinds with kind | leads
      · refine .inr (.inr ⟨earlier, last, dedents, rfl, ?_, ?_, kind⟩)
        · intro dedent member
          obtain ⟨filler, fillerMember, fillerAssigns⟩ :=
            exists_of_mem_forall₂ dedentsAssign member
          rw [fillerAssigns.same, List.eq_of_mem_replicate fillerMember]
          rfl
        · rw [leftAssigns.same]
          exact alone
      · exact .inl leads

/-- Before a line end an operator trails an operand or stands for one, unless it stands before
one that has its line to itself. -/
theorem lineStop (complete : steps.failure = none)
    (decided_eq : steps.decided = front ++ token :: back) (operator : token.lexeme = .operator)
    (inline : token.lineOperator = false) (newLine : 0 < token.heightAfter) :
    token.kind = .operator .suffixOp ∨ token.kind = .nullary ∨ BeforeLineOperator back := by
  have settles := steps.settles complete
  have lowers := steps.lowers
  rw [steps.readFailure_eq_none complete] at lowers
  obtain ⟨before, origin, behind, lowered_eq, fronts, assigns, backs⟩ :=
    steps.exists_lowered complete decided_eq
  rw [assigns.same] at operator inline newLine
  have member : origin ∈ steps.read := steps.mem_read complete (by simp [lowered_eq]) operator
  have undecided := steps.undecided member operator
  have trails : SuffixContext behind →
      token.kind = .operator .suffixOp ∨ token.kind = .nullary := fun context =>
    settles.trails lowered_eq undecided context decided_eq fronts.length_eq.symm
  rcases Indentation.exists_behind steps.plain lowers lowered_eq (steps.plain origin member) with
    ⟨count, rfl⟩ | ⟨levels, depth, next, rest, rfl, nextMember⟩
  · cases count with
    | zero =>
        exact (trails suffixContext_nil).imp_right .inl
    | succ count =>
        have context := Indentation.suffixContext_inserted origin .suffixOp .dedent (.inr rfl)
          (List.replicate count (Indentation.inserted origin .suffixOp .dedent))
        exact (trails context).imp_right .inl
  · have nextFits := (steps.read_sound next nextMember).1.fits
    have crosses := Indentation.cross_crosses ⟨origin, levels, depth⟩ next
    rcases crosses.suffixContext_or newLine nextFits operator inline rest with
      context | ⟨alone, empty⟩
    · exact (trails context).imp_right .inl
    · have nextUndecided := steps.undecided nextMember (nextFits.line_operator alone).1
      rw [empty, List.nil_append] at lowered_eq backs
      obtain ⟨right, others, rightAssigns, -, rfl⟩ := List.forall₂_cons_left_iff.mp backs
      rcases settles.parts lowered_eq ⟨undecided, nextUndecided⟩ decided_eq
        fronts.length_eq.symm with trails | leads
      · exact .inl trails
      · refine .inr (.inr ⟨right, others, rfl, ?_, leads⟩)
        rw [rightAssigns.same]
        exact alone

end Steps

/-- In a stream without an error, an operator that does not have its line to itself leads an
operand or stands for one behind a line end, and trails one or stands for one before a line
end, unless an operator that has its line to itself stands there. -/
theorem decidedStream_lineEnds {lexicon : Lexicon} {source : Source} {tokens : List Token}
    (decided_eq : decidedStream lexicon source = tokens.map .ok) :
    ∀ front token back, tokens = front ++ token :: back →
      token.lexeme = .operator → token.lineOperator = false →
        (0 < token.heightBefore →
          token.kind = .operator .prefixOp ∨ token.kind = .nullary ∨ BehindLineOperator front) ∧
        (0 < token.heightAfter →
          token.kind = .operator .suffixOp ∨ token.kind = .nullary ∨ BeforeLineOperator back) := by
  obtain ⟨steps, -⟩ := exists_steps lexicon source
  rw [steps.decidedStream_eq, ← stream_none] at decided_eq
  obtain ⟨rfl, complete⟩ := stream_inj decided_eq
  exact fun front token back split_eq operator inline =>
    ⟨steps.lineStart complete split_eq operator inline,
      steps.lineStop complete split_eq operator inline⟩

/-- A sum that is continued on the next line, with an operator at either end of the gap. -/
def continuedSum : Source :=
  { text := "a +\n+ b" }

/-- The decided tokens of the sum. -/
def continuedSumTokens : List Token :=
  (decidedStream .standard continuedSum).filterMap Except.toOption

theorem decidedStream_lineEnds_continuedSum :
    decidedStream .standard continuedSum = continuedSumTokens.map .ok ∧
      ∀ front token back, continuedSumTokens = front ++ token :: back →
        token.lexeme = .operator → token.lineOperator = false →
          (0 < token.heightBefore →
            token.kind = .operator .prefixOp ∨ token.kind = .nullary ∨
              BehindLineOperator front) ∧
          (0 < token.heightAfter →
            token.kind = .operator .suffixOp ∨ token.kind = .nullary ∨
              BeforeLineOperator back) := by
  have decided_eq : decidedStream .standard continuedSum = continuedSumTokens.map .ok := by cbv
  exact ⟨decided_eq, decidedStream_lineEnds decided_eq⟩

/-- A title that is underlined, with an operator that starts the line behind it. -/
def underlinedTitle : Source :=
  { text := "Title\n=====\n\n+ b" }

/-- The decided tokens of the title. -/
def underlinedTokens : List Token :=
  (decidedStream .standard underlinedTitle).filterMap Except.toOption

/-- The operator behind the underline. -/
def underlinedPlus : Token where
  kind := .operator .suffixOp
  lexeme := .operator
  text := "+"
  before := "\n\n"
  after := " "
  span := ⟨13, 14, by decide⟩
  lineOperator := false

/-- Behind an underline, an operator that starts a line trails what comes before it. -/
theorem decidedStream_underlined :
    ∃ front token back,
      decidedStream .standard underlinedTitle = (front ++ token :: back).map .ok ∧
        token.lexeme = .operator ∧ token.lineOperator = false ∧
        ¬ (0 < token.heightBefore →
          token.kind = .operator .prefixOp ∨ token.kind = .nullary) := by
  refine ⟨underlinedTokens.take 2, underlinedPlus, underlinedTokens.drop 3, by cbv, rfl, rfl, ?_⟩
  decide

end OperatorMarkup
