import OperatorMarkup.Proofs.Token.Joints
import OperatorMarkup.Proofs.Tree.Edges

/-!
# Gaps that meet

The gap behind a token is the one before the next token, and a token that is put in has the
gap that it stands in on both sides.  So an operand behind a line break or a juxtaposition is
offered on its left what that joint measures.
-/

namespace OperatorMarkup

/-- The gap behind each token is the one before the next. -/
def GapsMeet (tokens : List Token) : Prop :=
  tokens.IsChain fun token next => token.after = next.before

/-- A token that is put in has the gap that it stands in on both sides, and a line break
stands at a line end. -/
structure Token.Level (token : Token) : Prop where
  same : token.lexeme.isSynthetic = true → token.before = token.after
  lineEnd : token.lexeme = .lineBreak → 0 < token.heightAfter

variable {token next : Token} {tokens written fillers front back : List Token}

theorem gapsMeet_iff : GapsMeet tokens ↔
    ∀ front token next back, tokens = front ++ token :: next :: back →
      token.after = next.before := by
  rw [GapsMeet, List.isChain_iff_forall_rel_of_append_cons_cons]
  constructor
  · exact fun meet front token next back split_eq => meet split_eq
  · exact fun meet token next front back split_eq => meet front token next back split_eq

namespace GapsMeet

theorem uncons (meet : GapsMeet (token :: tokens)) : GapsMeet tokens :=
  List.IsChain.tail meet

/-- Tokens that are put in with the gap that they stand in leave the gaps meeting. -/
theorem insert (meet : GapsMeet (token :: tokens))
    (level : ∀ filler ∈ fillers, filler.before = token.after ∧ filler.after = token.after) :
    GapsMeet (token :: (fillers ++ tokens)) := by
  induction fillers generalizing token with
  | nil => exact meet
  | cons filler fillers ih =>
      rw [List.forall_mem_cons] at level
      have rest : GapsMeet (filler :: tokens) := by
        cases tokens with
        | nil => exact List.isChain_singleton _
        | cons next tokens =>
            obtain ⟨here, later⟩ := List.isChain_cons_cons.mp meet
            exact List.isChain_cons_cons.mpr ⟨level.1.2.trans here, later⟩
      refine List.isChain_cons_cons.mpr ⟨level.1.1.symm, ih rest ?_⟩
      rw [level.1.2]
      exact level.2

/-- What keeps the gaps of each token keeps them meeting. -/
theorem of_forall₂ {related : Token → Token → Prop}
    (same : ∀ token other, related token other →
      other.before = token.before ∧ other.after = token.after)
    (pairs : List.Forall₂ related tokens written) (meet : GapsMeet tokens) : GapsMeet written := by
  induction pairs with
  | nil => exact meet
  | @cons token other tokens written pair pairs ih =>
      cases pairs with
      | nil => exact List.isChain_singleton _
      | @cons next other' tokens written pair' pairs =>
          obtain ⟨here, later⟩ := List.isChain_cons_cons.mp meet
          refine List.isChain_cons_cons.mpr ⟨?_, ih later⟩
          rw [(same _ _ pair).2, here, (same _ _ pair').1]

end GapsMeet

/-- A joint is an operator that is put in. -/
theorem Token.Fits.of_isJoint {lexicon : Lexicon} (fits : token.Fits lexicon)
    (isJoint : token.isJoint = true) :
    token.lexeme.isSynthetic = true ∧ token.kind = .operator .infixOp := by
  rcases (Token.isJoint_iff token).mp isJoint with lexeme_eq | lexeme_eq <;>
    exact ⟨by rw [lexeme_eq]; rfl, fits.allows lexeme_eq⟩

/-- An operator that leads an operand and a separator are read from the text. -/
theorem Token.Fits.of_leads {lexicon : Lexicon} (fits : token.Fits lexicon)
    (kinds : token.kind = .operator .prefixOp ∨ token.lexeme = .separator) :
    token.lexeme.isSynthetic = false ∧ token.isOperand = false := by
  rcases kinds with kind_eq | lexeme_eq
  · have allowed := fits.allowed
    refine ⟨?_, by rw [Token.isOperand, kind_eq]; rfl⟩
    cases lexeme_eq : token.lexeme <;> simp_all [Lexeme.Allows, Lexeme.isSynthetic]
  · exact ⟨by rw [lexeme_eq]; rfl, by rw [Token.isOperand, fits.allows lexeme_eq]; rfl⟩

/-! ## Gaps in the stages of a stream -/

namespace Indentation

theorem level_inserted {filler : Token} (inserted : IsInserted token filler) :
    filler.before = token.after ∧ filler.after = token.after := by
  obtain ⟨fixity, lexeme, rfl, -⟩ := inserted
  exact ⟨rfl, rfl⟩

theorem level_of_mem_cross {state : State} {filler : Token}
    (member : filler ∈ (cross state next).2) : filler.Level := by
  obtain ⟨fixity, lexeme, rfl, -⟩ := isInserted_cross _ _ _ member
  refine ⟨fun _ => rfl, fun _ => Nat.pos_of_ne_zero fun flat => ?_⟩
  rw [cross, if_pos (show state.token.heightAfter = 0 from flat)] at member
  contradiction

theorem emits_gapsMeet_behind {state : State} (meet : GapsMeet (state.token :: tokens))
    (emits : stage.Emits (some state) tokens none written none) :
    GapsMeet (state.token :: written) := by
  induction tokens generalizing state written with
  | nil =>
      rw [emits_nil emits, ← List.append_nil (List.replicate _ _)]
      exact meet.insert fun filler member => level_inserted (isInserted_replicate _ _ filler member)
  | cons next tokens ih =>
      obtain ⟨behind, rfl, rest⟩ := emits_cons emits
      have later : GapsMeet ((state.read next).token :: behind) := ih meet.uncons rest
      refine GapsMeet.insert ?_ fun filler member =>
        level_inserted (isInserted_cross state next filler member)
      exact List.isChain_cons_cons.mpr ⟨(List.isChain_cons_cons.mp meet).1, later⟩

theorem emits_gapsMeet (meet : GapsMeet tokens)
    (emits : stage.Emits none tokens none written none) : GapsMeet written := by
  cases tokens with
  | nil =>
      cases emits with
      | finished finish_eq =>
          obtain rfl := Except.ok.inj finish_eq
          exact List.isChain_nil
  | cons token tokens =>
      cases emits with
      | step step_eq rest =>
          obtain ⟨rfl, rfl⟩ := Prod.mk.inj (Except.ok.inj step_eq)
          exact emits_gapsMeet_behind meet rest

end Indentation

namespace Alternation

theorem mem_fill_level {state : State} {role : Role} :
    ∀ filler ∈ state.fill role, filler.before = state.gap ∧ filler.after = state.gap := by
  intro filler member
  rcases mem_fill member with rfl | rfl <;> exact ⟨rfl, rfl⟩

theorem level_of_mem_fill {state : State} {role : Role} :
    ∀ filler ∈ state.fill role, filler.Level := by
  intro filler member
  rcases mem_fill member with rfl | rfl <;> exact ⟨fun _ => rfl, nofun⟩

theorem emits_gapsMeet_behind (meet : GapsMeet (token :: tokens))
    (emits : stage.Emits (.after token) tokens none written none) :
    GapsMeet (token :: written) := by
  induction tokens generalizing token written with
  | nil =>
      cases emits with
      | finished finish_eq =>
          rw [← Except.ok.inj finish_eq, ← List.append_nil (State.fill _ _)]
          exact meet.insert mem_fill_level
  | cons next tokens ih =>
      cases emits with
      | step step_eq rest =>
          obtain ⟨rfl, rfl⟩ := Prod.mk.inj (Except.ok.inj step_eq)
          have later := ih meet.uncons rest
          rw [List.append_assoc]
          refine GapsMeet.insert ?_ mem_fill_level
          exact List.isChain_cons_cons.mpr ⟨(List.isChain_cons_cons.mp meet).1, later⟩

/-- The gaps meet from the first token that is read on.  Before it there is a void operand at
most. -/
theorem emits_gapsMeet (meet : GapsMeet tokens)
    (emits : stage.Emits ⟨.between, 0, ""⟩ tokens none written none) :
    ∃ first rest, written = first ++ rest ∧ (∀ void ∈ first, void.kind = .void) ∧
      GapsMeet rest := by
  have voids : ∀ role, ∀ filler ∈ State.fill ⟨.between, 0, ""⟩ role, filler.kind = .void := by
    intro role filler member
    cases role <;> simp_all [State.fill, fillers, State.token, Token.synthetic]
  cases tokens with
  | nil =>
      cases emits with
      | finished finish_eq =>
          rw [← Except.ok.inj finish_eq]
          exact ⟨_, [], (List.append_nil _).symm, voids _, List.isChain_nil⟩
  | cons token tokens =>
      cases emits with
      | step step_eq rest =>
          obtain ⟨rfl, rfl⟩ := Prod.mk.inj (Except.ok.inj step_eq)
          refine ⟨_, _, List.append_assoc .., voids _, ?_⟩
          exact emits_gapsMeet_behind meet rest

end Alternation

theorem Placed.split {lexicon : Lexicon} {source : Source} {offset : Nat} {gap : String}
    (placed : Placed lexicon source offset gap (front ++ back)) :
    ∃ offset' gap', Placed lexicon source offset' gap' back := by
  induction front generalizing offset gap with
  | nil => exact ⟨offset, gap, placed⟩
  | cons token front ih =>
      cases placed with
      | inserted _ _ rest => exact ih rest
      | written _ _ _ _ _ _ rest => exact ih rest

namespace Steps

variable {lexicon : Lexicon} {source : Source} (steps : Steps lexicon source)
  {operand joint : Token}

include steps

theorem read_gapsMeet (complete : steps.failure = none) : GapsMeet steps.read :=
  gapsMeet_iff.mpr fun _ _ _ _ => steps.gap_eq complete

theorem decided_gapsMeet (complete : steps.failure = none) : GapsMeet steps.decided := by
  have lowers := steps.lowers
  rw [steps.readFailure_eq_none complete] at lowers
  refine .of_forall₂ (fun token other assigns => ?_) (steps.settles complete).each
    (Indentation.emits_gapsMeet (steps.read_gapsMeet complete) lowers)
  rw [assigns.same]
  exact ⟨rfl, rfl⟩

theorem lowered_level : ∀ token ∈ steps.lowered, token.Level := by
  refine steps.lowers.forall_written (fun _ => True) ?_ ?_ trivial fun token member =>
    (steps.read_sound token member).2
  · intro state token next now _ written step_eq
    refine ⟨trivial, ?_⟩
    have plain : token.Level := by
      constructor
      · intro synthetic
        rw [written] at synthetic
        contradiction
      · intro lexeme_eq
        rw [lexeme_eq] at written
        contradiction
    cases state with
    | none =>
        obtain ⟨rfl, rfl⟩ := Prod.mk.inj (Except.ok.inj step_eq)
        exact List.forall_mem_singleton.mpr plain
    | some state =>
        obtain ⟨rfl, rfl⟩ := Prod.mk.inj (Except.ok.inj step_eq)
        intro other member
        rcases List.mem_append.mp member with filler | last
        · exact Indentation.level_of_mem_cross filler
        · rw [List.mem_singleton.mp last]
          exact plain
  · intro state last _ finish_eq other member
    rw [← Except.ok.inj finish_eq] at member
    cases state with
    | none => contradiction
    | some state =>
        rw [List.eq_of_mem_replicate member]
        exact ⟨fun _ => rfl, nofun⟩

theorem alternating_level (complete : steps.failure = none) :
    ∀ token ∈ steps.alternating, token.Level := by
  have decided : ∀ token ∈ steps.decided, token.Level := by
    intro token member
    obtain ⟨origin, originMember, assigns⟩ :=
      exists_of_mem_forall₂ (steps.settles complete).each member
    obtain ⟨same, lineEnd⟩ := steps.lowered_level origin originMember
    rw [assigns.same]
    exact ⟨same, lineEnd⟩
  refine steps.alternates.forall_written (fun _ => True) ?_ ?_ trivial decided
  · intro state token next now _ level step_eq
    obtain ⟨rfl, rfl⟩ := Prod.mk.inj (Except.ok.inj step_eq)
    refine ⟨trivial, fun other member => ?_⟩
    rcases List.mem_append.mp member with filler | last
    · exact Alternation.level_of_mem_fill other filler
    · rw [List.mem_singleton.mp last]
      exact level
  · intro state last _ finish_eq other member
    rw [← Except.ok.inj finish_eq] at member
    exact Alternation.level_of_mem_fill other member

/-- Tokens that are put in have the gap that they stand in on both sides. -/
theorem written_level (complete : steps.failure = none) : ∀ token ∈ steps.written, token.Level := by
  intro token member
  obtain ⟨origin, originMember, widened⟩ := exists_of_mem_forall₂ steps.forall₂_written member
  obtain ⟨same, lineEnd⟩ := steps.alternating_level complete origin originMember
  rw [widened.same]
  exact ⟨same, lineEnd⟩

/-- The gaps meet behind every joint of an alternating stream. -/
theorem alternating_gaps (complete : steps.failure = none) (notVoid : joint.kind ≠ .void)
    (written_eq : steps.alternating = front ++ joint :: back) : GapsMeet (joint :: back) := by
  have alternates := steps.alternates
  rw [complete] at alternates
  obtain ⟨first, rest, rest_eq, voids, meet⟩ :=
    Alternation.emits_gapsMeet (steps.decided_gapsMeet complete) alternates
  rw [written_eq] at rest_eq
  rcases append_cons_eq_append rest_eq with ⟨others, rfl, -⟩ | ⟨others, -, rfl⟩
  · exact absurd (voids joint (by simp)) notVoid
  · exact List.IsChain.right_of_append meet

/-- In front of an operand with a text stands the gap that it keeps. -/
theorem offered_eq_before (complete : steps.failure = none) (member : operand ∈ steps.written)
    (kind_cases : operand.kind = .identifier ∨ operand.kind = .nullary) :
    ((Node.ofToken source operand).offered source).1 = operand.before := by
  have filled := (steps.widens complete).tiled.2 operand member
  obtain ⟨-, after, -, covers⟩ : lexicon.Blank operand.before ∧ ∃ after, lexicon.Blank after ∧
      source.Covers operand.span (operand.before ++ operand.text ++ after) := by
    rcases kind_cases with kind_eq | kind_eq <;> simpa [Token.Filled, kind_eq] using filled
  have place_eq := Node.offers_of_kind source kind_cases
  rw [Node.tokenPlace_eq covers] at place_eq
  exact congrArg Place.left place_eq

/-- Tokens side by side in the final stream lie so in the source. -/
theorem span_stop_eq {first second : Token} (complete : steps.failure = none)
    (written_eq : steps.written = front ++ first :: second :: back) :
    second.span.start = first.span.stop := by
  have tile := (steps.widens complete).tiled.1
  rw [written_eq, List.map_append] at tile
  obtain ⟨middle, -, rest⟩ := tile.exists_middle
  exact rest.uncons.2.uncons.1

/-- What is left out between a joint and an operator of the text covers the gap between the
two. -/
theorem slice_between {void right : Token} (complete : steps.failure = none)
    (written_eq : steps.written = front ++ joint :: void :: right :: back)
    (isJoint : joint.isJoint = true) (isVoid : void.kind = .void)
    (rightText : right.lexeme.isSynthetic = false) (rightTurn : right.isOperand = false) :
    source.slice void.span = right.before := by
  obtain ⟨before, joint', void', rest, alternating_eq, -, jointWidened, voidWidened, backs⟩ :=
    steps.exists_alternating written_eq
  obtain ⟨right', behind, rightWidened, -, rfl⟩ := List.forall₂_cons_right_iff.mp backs
  obtain rfl := rightWidened.kept (by rw [rightWidened.same] at rightTurn; exact rightTurn)
  have jointFits := steps.alternating_fits complete joint' (by simp [alternating_eq])
  rw [jointWidened.same] at isJoint
  obtain ⟨jointPutIn, jointKind⟩ := jointFits.of_isJoint isJoint
  obtain rfl := jointWidened.kept (by rw [Token.isOperand, jointKind]; rfl)
  have voidPutIn : void'.lexeme.isSynthetic = true := by
    rw [steps.lexeme_eq_of_void complete (by simp [alternating_eq])
      (by rw [voidWidened.same] at isVoid; exact isVoid)]
    rfl
  obtain ⟨gap, placed⟩ := steps.placed complete
  rw [alternating_eq] at placed
  obtain ⟨offset, gap, here⟩ := placed.split
  have behindJoint := steps.span_stop_eq complete written_eq
  rw [List.append_cons] at written_eq
  have behindVoid := steps.span_stop_eq complete written_eq
  cases here with
  | written text => rw [jointPutIn] at text; contradiction
  | inserted _ span_eq here =>
      cases here with
      | written text => rw [voidPutIn] at text; contradiction
      | inserted _ _ here =>
          cases here with
          | inserted putIn => rw [rightText] at putIn; contradiction
          | written _ holds _ before_eq start_eq =>
              apply Source.Covers.slice_eq
              rw [span_eq] at behindJoint
              rw [before_eq]
              constructor
              · rw [behindJoint]
                exact holds
              · rw [← behindVoid, start_eq, behindJoint]
                rfl

theorem written_fits (complete : steps.failure = none) :
    ∀ token ∈ steps.written, token.Fits lexicon :=
  Extent.adjustTokens_fits (steps.alternating_fits complete)

/-- The whitespace in front of an operand behind a joint is the gap that the joint measures. -/
theorem offered_eq (complete : steps.failure = none)
    (blamed : blame lexicon (brackets lexicon source) = none)
    (written_eq : steps.written = front ++ joint :: operand :: back)
    (isJoint : joint.isJoint = true) (isOperand : operand.isOperand = true) :
    ((Node.ofToken source operand).offered source).1 = joint.after := by
  obtain ⟨before, joint', operand', behind, alternating_eq, -, jointWidened, operandWidened,
    backs⟩ := steps.exists_alternating written_eq
  have jointFits := steps.alternating_fits complete joint' (by simp [alternating_eq])
  obtain ⟨-, jointKind⟩ := jointFits.of_isJoint (by rwa [jointWidened.same] at isJoint)
  obtain rfl := jointWidened.kept (by rw [Token.isOperand, jointKind]; rfl)
  have meet := steps.alternating_gaps complete (by rw [jointKind]; decide) alternating_eq
  have before_eq : joint.after = operand.before := by
    rw [operandWidened.same]
    exact (List.isChain_cons_cons.mp meet).1
  have member : operand ∈ steps.written := by simp [written_eq]
  rcases (steps.written_fits complete operand member).operand_cases isOperand with
    ⟨-, kind_eq⟩ | ⟨-, kind_eq⟩ | ⟨filler, kind_eq⟩
  · rw [before_eq]
    exact steps.offered_eq_before complete member (.inl kind_eq)
  · rw [before_eq]
    exact steps.offered_eq_before complete member (.inr kind_eq)
  · obtain ⟨right, later, rfl, kinds⟩ :=
      (steps.attached complete blamed).behindJoint _ _ _ _ written_eq isJoint kind_eq
    have rightFits := steps.written_fits complete right (by simp [written_eq])
    obtain ⟨rightText, rightTurn⟩ := rightFits.of_leads (kinds.imp_right And.right)
    obtain ⟨right', later', rightWidened, -, rfl⟩ := List.forall₂_cons_right_iff.mp backs
    have voidLevel := (steps.alternating_level complete operand' (by simp [alternating_eq])).same
      (by rw [operandWidened.same] at filler; rw [show operand'.lexeme = .filler from filler]; rfl)
    have offered_eq : ((Node.ofToken source operand).offered source).1 =
        source.slice operand.span := by
      rw [Node.ofToken, kind_eq]
      rfl
    rw [offered_eq, steps.slice_between complete written_eq isJoint kind_eq rightText rightTurn,
      before_eq, rightWidened.same, operandWidened.same]
    exact ((List.isChain_cons_cons.mp (List.isChain_cons_cons.mp meet).2).1.symm.trans
      voidLevel.symm)

end Steps

end OperatorMarkup
