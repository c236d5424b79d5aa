import OperatorMarkup.Proofs.Token.LineEnds

/-!
# The neighbours of a line break

A line break is put in between two tokens of a text, behind the returns from deeper lines.
Neither of the two is a bracket that has the line end at its inner side, so an operand or a
separator stands on either side of the line break, but for operators that lack an operand on
their other side.
-/

namespace OperatorMarkup

namespace Indentation

variable {lexicon : Lexicon} {state : State} {token next filler : Token}
  {front back tokens written : List Token}

/-! ## Line breaks of a lowered stream -/

/-- Inside brackets nothing is put in next to those that are around it. -/
theorem lexeme_ne_of_mem_cross (member : filler ∈ (cross state next).2)
    (inside : 0 < state.depth) : state.token.lexeme ≠ .opener ∧ next.lexeme ≠ .closer := by
  simp only [cross] at member
  split at member
  · contradiction
  · split at member
    · contradiction
    · next apart => exact not_or.mp apart

/-- In front of the line break that a gap is filled with there are dedents alone, and nothing
stands behind it. -/
theorem Crosses.lineBreak_eq {levels : Levels} {gap first second : List Token}
    (crosses : Crosses state next levels gap) (gap_eq : gap = first ++ filler :: second)
    (lexeme_eq : filler.lexeme = .lineBreak) :
    filler = inserted state.token .infixOp .lineBreak ∧ second = [] ∧
      ∃ count, first = List.replicate count (inserted state.token .suffixOp .dedent) := by
  have line : ∀ first, lineBreakBetween state.token next = first ++ filler :: second →
      filler = inserted state.token .infixOp .lineBreak ∧ second = [] ∧ first = [] := by
    intro first between_eq
    rcases lineBreakBetween_cases state.token next with ⟨none_eq, -⟩ | some_eq
    · simp [none_eq] at between_eq
    · rw [some_eq] at between_eq
      rcases List.singleton_eq_append_iff.mp between_eq with ⟨rfl, one_eq⟩ | ⟨-, none_eq⟩
      · obtain ⟨rfl, rfl⟩ := List.cons.inj one_eq
        exact ⟨rfl, rfl, rfl⟩
      · contradiction
  cases crosses with
  | flat | edge => simp at gap_eq
  | inside =>
      obtain ⟨filler_eq, second_eq, rfl⟩ := line first gap_eq
      exact ⟨filler_eq, second_eq, 0, rfl⟩
  | deeper =>
      have here : filler ∈ [inserted state.token .infixOp .indent] := by simp [gap_eq]
      rw [List.mem_singleton.mp here] at lexeme_eq
      contradiction
  | outer =>
      rcases append_cons_eq_append gap_eq.symm with ⟨rest, dedents_eq, -⟩ | ⟨rest, rfl, rest_eq⟩
      · have here : filler ∈ List.replicate (state.levels.leave next.spaceBefore).1
            (inserted state.token .suffixOp .dedent) := by simp [dedents_eq]
        rw [List.eq_of_mem_replicate here] at lexeme_eq
        contradiction
      · obtain ⟨filler_eq, second_eq, rfl⟩ := line rest rest_eq
        exact ⟨filler_eq, second_eq, _, List.append_nil _⟩

/-- The tokens of a text that a line break stands between. -/
structure BreaksLine (tokens front : List Token) (filler : Token) (back : List Token)
    (before : List Token) (token : Token) (count : Nat) (next : Token) (behind : List Token) :
    Prop where
  front_eq : front = before ++ token :: List.replicate count (inserted token .suffixOp .dedent)
  filler_eq : filler = inserted token .infixOp .lineBreak
  back_eq : back = next :: behind
  tokens_eq : ∃ rest, tokens = texts before ++ token :: next :: rest
  opener_ne : token.lexeme ≠ .opener
  outside : next.lexeme = .closer → depthBehind (texts before ++ [token]) = 0

/-- A line break stands between two tokens of the text. -/
theorem exists_breaksLine (plain : ∀ other ∈ tokens, other.lexeme.isIndentation = false)
    (emits : stage.Emits none tokens none (front ++ filler :: back) none)
    (lexeme_eq : filler.lexeme = .lineBreak) :
    ∃ before token count next behind,
      BreaksLine tokens front filler back before token count next behind := by
  obtain ⟨reached, read, before, first, second, reaches, rfl, comes⟩ := emits.exists_writing
  rcases comes with ⟨next, source, rest, later, rfl, step_eq, rfl, -⟩ | ⟨rfl, finish_eq, rfl⟩
  · have sourcePlain := plain source (by simp)
    have follows := follows_of_reaches (fun other member => plain other (by simp [member])) reaches
    have output_eq := (Prod.mk.inj (Except.ok.inj step_eq)).2
    have notSource : filler ∉ [source] := by
      intro member
      rw [← List.mem_singleton.mp member, lexeme_eq] at sourcePlain
      contradiction
    cases follows with
    | start =>
        change [source] = _ at output_eq
        exact absurd (by rw [output_eq]; simp) notSource
    | @behind state front before tracks =>
        rcases append_cons_eq_append output_eq.symm with
          ⟨others, gap_eq, rfl⟩ | ⟨others, rfl, source_eq⟩
        · obtain ⟨rfl, rfl, count, rfl⟩ :=
            (cross_crosses state source).lineBreak_eq gap_eq lexeme_eq
          have member : inserted state.token .infixOp .lineBreak ∈ (cross state source).2 := by
            simp [gap_eq]
          have depth_eq := tracks.depth_eq
          refine ⟨before, state.token, count, source, later, ⟨by simp, rfl, rfl, ?_, ?_, ?_⟩⟩
          · exact ⟨rest, by rw [tracks.texts_eq, List.append_assoc]; rfl⟩
          · intro opener
            have inside : 0 < state.depth := by
              rw [← depth_eq, depthBehind_concat, depthAfter, opener]
              exact Nat.succ_pos _
            exact (lexeme_ne_of_mem_cross member inside).1 opener
          · intro closer
            rw [tracks.texts_eq, depth_eq]
            by_contra notOutside
            exact (lexeme_ne_of_mem_cross member (Nat.pos_of_ne_zero notOutside)).2 closer
        · exact absurd (by rw [source_eq]; simp) notSource
  · have finished := Except.ok.inj finish_eq
    cases reached with
    | none => simp [finish] at finished
    | some state =>
        have here : filler ∈ finish (some state) := by simp [finished]
        rw [List.eq_of_mem_replicate here] at lexeme_eq
        contradiction

/-! ## The depth of a scan -/

/-- A scan of brackets has as many of them open as there are behind what it has read. -/
theorem length_of_scanBrackets {opened reached : List Token} {depth : Nat}
    (depth_eq : opened.length = depth)
    (scan_eq : scanBrackets lexicon opened tokens = .ok reached) :
    reached.length = tokens.foldl depthAfter depth := by
  induction tokens generalizing opened depth with
  | nil =>
      obtain rfl := Except.ok.inj scan_eq
      exact depth_eq
  | cons token tokens ih =>
      rw [scanBrackets_cons] at scan_eq
      obtain ⟨next, step_eq, rest_eq⟩ := Except.bind_eq_ok_iff.mp scan_eq
      refine ih ?_ rest_eq
      subst depth_eq
      cases lexeme_eq : token.lexeme with
      | opener =>
          rw [bracketStep_opener lexeme_eq] at step_eq
          obtain rfl := Except.ok.inj step_eq
          simp [depthAfter, lexeme_eq]
      | closer =>
          cases opened with
          | nil => simp [bracketStep, lexeme_eq] at step_eq
          | cons opener opened =>
              rw [bracketStep_closer lexeme_eq] at step_eq
              split at step_eq
              · obtain rfl := Except.ok.inj step_eq
                simp [depthAfter, lexeme_eq]
              · contradiction
      | _ =>
          rw [bracketStep_of_not_isBracket (by simp [Token.isBracket, lexeme_eq])] at step_eq
          obtain rfl := Except.ok.inj step_eq
          simp [depthAfter, lexeme_eq]

/-- A closing bracket where none is open is to blame. -/
theorem depthBehind_ne_zero (blamed : blame lexicon tokens = none)
    (tokens_eq : tokens = front ++ token :: back) (closer : token.lexeme = .closer) :
    depthBehind front ≠ 0 := by
  intro outside
  rw [blame, tokens_eq, scanBrackets_append] at blamed
  cases front_eq : scanBrackets lexicon [] front with
  | error culprit =>
      rw [front_eq] at blamed
      contradiction
  | ok opened =>
      have none_eq : opened = [] := List.eq_nil_of_length_eq_zero
        ((length_of_scanBrackets rfl front_eq).trans outside)
      rw [front_eq, none_eq, Except.bind, scanBrackets_cons] at blamed
      simp [bracketStep, closer, Except.bind] at blamed

end Indentation

namespace Steps

open FixityChoice

variable {lexicon : Lexicon} {source : Source} (steps : Steps lexicon source)
  {lineBreak token next : Token} {front back : List Token}

include steps

/-- The brackets of the text that is read are those of the source. -/
theorem blame_read : blame lexicon steps.read = blame lexicon (brackets lexicon source) := by
  rw [brackets_eq_filter steps.read_eq, blame_filter]

/-- Only the operators of a text are undecided when they are read. -/
theorem kind_of_read {other : Token} (member : token ∈ steps.read) (assigns : Assigns token other) :
    token.lexeme = .operator ∨ other.kind = .identifier ∨ other.lexeme = .separator ∨
      token.lexeme = .opener ∧ other.kind = .operator .prefixOp ∨
      token.lexeme = .closer ∧ other.kind = .operator .suffixOp := by
  have sound := steps.read_sound token member
  have allowed := sound.1.fits.allowed
  have lexeme_eq : other.lexeme = token.lexeme := by
    rw [assigns.same]
    rfl
  have kept : token.kind ≠ .operator .ambiguous → other.kind = token.kind := fun decided => by
    rw [assigns.kept decided]
  cases token_eq : token.lexeme with
  | operator => exact .inl rfl
  | separator => exact .inr (.inr (.inl (lexeme_eq.trans token_eq)))
  | word | opener | closer =>
      rw [token_eq] at allowed
      rw [kept (by rw [allowed]; decide), allowed]
      simp
  | indent | dedent | lineBreak | juxtaposition | filler =>
      rw [token_eq] at sound
      exact absurd sound.2 (by decide)

/-- Before a line break of a decided stream stands an operand, an operator that trails one, or
a separator. -/
theorem exists_before_lineBreak (complete : steps.failure = none)
    (decided_eq : steps.decided = front ++ lineBreak :: back)
    (lexeme_eq : lineBreak.lexeme = .lineBreak) :
    ∃ (before : List Token) (token : Token), front = before ++ [token] ∧
      (token.kind.role = .operand ∨ token.kind = .operator .suffixOp ∨
        token.lexeme = .separator) := by
  have settles := steps.settles complete
  have lowers := steps.lowers
  rw [steps.readFailure_eq_none complete] at lowers
  obtain ⟨before, origin, behind, lowered_eq, fronts, assigns, -⟩ :=
    steps.exists_lowered complete decided_eq
  have origin_eq : origin.lexeme = .lineBreak := by
    rw [assigns.same] at lexeme_eq
    exact lexeme_eq
  rw [lowered_eq] at lowers
  obtain ⟨earlier, token, count, next, later, breaks⟩ :=
    Indentation.exists_breaksLine steps.plain lowers origin_eq
  obtain ⟨rfl, rfl, rfl, ⟨rest, read_eq⟩, opener_ne, -⟩ := breaks
  rw [List.append_cons] at fronts
  obtain ⟨firsts, dedents, rfl, firstsAssign, dedentsAssign⟩ := exists_of_forall₂_append fronts
  obtain ⟨earliers, ends, rfl, earliersAssign, endsAssign⟩ :=
    exists_of_forall₂_append firstsAssign
  obtain ⟨last, none, lastAssigns, noneAssigns, rfl⟩ := List.forall₂_cons_left_iff.mp endsAssign
  cases noneAssigns
  rcases List.eq_nil_or_concat dedents with rfl | ⟨others, dedent, rfl⟩
  · cases count with
    | succ count => cases dedentsAssign
    | zero =>
        refine ⟨earliers, last, List.append_nil _, ?_⟩
        have member : token ∈ steps.read := by simp [read_eq]
        rcases steps.kind_of_read member lastAssigns with
          operator | word | separator | ⟨opener, -⟩ | ⟨-, closer⟩
        · have undecided := steps.undecided member operator
          have context := Indentation.suffixContext_inserted token .infixOp .lineBreak
            (.inl rfl) (next :: later)
          simp only [List.replicate_zero, List.append_assoc, List.cons_append, List.nil_append]
            at lowered_eq decided_eq
          rcases settles.trails lowered_eq undecided context decided_eq
            earliersAssign.length_eq.symm with suffix | nullary
          · exact .inr (.inl suffix)
          · exact .inl (by rw [nullary]; rfl)
        · exact .inl (by rw [word]; rfl)
        · exact .inr (.inr separator)
        · contradiction
        · exact .inr (.inl closer)
  · rw [List.concat_eq_append] at dedentsAssign ⊢
    obtain ⟨filler, fillerMember, fillerAssigns⟩ :=
      exists_of_mem_forall₂ dedentsAssign (List.mem_append_right others List.mem_cons_self)
    rw [List.eq_of_mem_replicate fillerMember] at fillerAssigns
    refine ⟨earliers ++ [last] ++ others, dedent, by simp, .inr (.inl ?_)⟩
    rw [fillerAssigns.kept (by simp [Indentation.inserted, Token.synthetic])]
    rfl

/-- Behind a line break of a decided stream stands an operand, an operator that leads one, or
a separator. -/
theorem exists_behind_lineBreak (complete : steps.failure = none)
    (blamed : blame lexicon (brackets lexicon source) = none)
    (decided_eq : steps.decided = front ++ lineBreak :: back)
    (lexeme_eq : lineBreak.lexeme = .lineBreak) :
    ∃ (next : Token) (behind : List Token), back = next :: behind ∧
      (next.kind.role = .operand ∨ next.kind = .operator .prefixOp ∨
        next.lexeme = .separator) := by
  have settles := steps.settles complete
  have lowers := steps.lowers
  rw [steps.readFailure_eq_none complete] at lowers
  obtain ⟨before, origin, behind, lowered_eq, fronts, assigns, backs⟩ :=
    steps.exists_lowered complete decided_eq
  have origin_eq : origin.lexeme = .lineBreak := by
    rw [assigns.same] at lexeme_eq
    exact lexeme_eq
  rw [lowered_eq] at lowers
  obtain ⟨earlier, token, count, next, later, breaks⟩ :=
    Indentation.exists_breaksLine steps.plain lowers origin_eq
  obtain ⟨-, filler_eq, rfl, ⟨rest, read_eq⟩, -, outside⟩ := breaks
  obtain ⟨other, others, nextAssigns, -, rfl⟩ := List.forall₂_cons_left_iff.mp backs
  refine ⟨other, others, rfl, ?_⟩
  have member : next ∈ steps.read := by simp [read_eq]
  rcases steps.kind_of_read member nextAssigns with
    operator | word | separator | ⟨-, opener⟩ | ⟨closer, -⟩
  · have undecided := steps.undecided member operator
    have context : PrefixContext (before ++ [origin]) := by
      rw [filler_eq]
      exact Indentation.prefixContext_inserted before token .lineBreak
    rw [List.append_cons] at lowered_eq decided_eq
    rcases settles.leads lowered_eq undecided context decided_eq
      (by simp [fronts.length_eq]) with leads | nullary
    · exact .inr (.inl leads)
    · exact .inl (by rw [nullary]; rfl)
  · exact .inl (by rw [word]; rfl)
  · exact .inr (.inr separator)
  · exact .inr (.inl opener)
  · rw [← steps.blame_read] at blamed
    rw [List.append_cons] at read_eq
    exact absurd (outside closer) (Indentation.depthBehind_ne_zero blamed read_eq closer)

end Steps

end OperatorMarkup
