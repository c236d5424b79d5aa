import OperatorMarkup.Proofs.Token.Breaks
import OperatorMarkup.Proofs.Token.Filling

/-!
# Operands that are left out

A void operand stands before an operator that leads what is behind it and behind one that
trails what is before it.  Next to a line break or a juxtaposition it stands for no other
reason: on its other side is such an operator, or a separator at the end of its line.
-/

namespace OperatorMarkup

/-- Whether a token joins operands that stand side by side or one line below the other. -/
def Token.isJoint (token : Token) : Bool :=
  token.lexeme == .lineBreak || token.lexeme == .juxtaposition

theorem Token.isJoint_iff (token : Token) :
    token.isJoint = true ↔ token.lexeme = .lineBreak ∨ token.lexeme = .juxtaposition := by
  simp [Token.isJoint]

namespace Alternation

variable {tokens written front back : List Token} {void joint lineBreak : Token}

theorem given_cons (plain : joint.lexeme.fillsIn = false) (tokens : List Token) :
    given (joint :: tokens) = joint :: given tokens := by
  simp [given, plain]

theorem given_cons_filler (fillsIn : void.lexeme.fillsIn = true) (tokens : List Token) :
    given (void :: tokens) = given tokens := by
  simp [given, fillsIn]

/-- Before an operator between operands goes a void one, unless an operand is there. -/
theorem fillers_between (left : Role) :
    fillers left .between = [] ∧ left = .operand ∨
      fillers left .between = [.void] ∧ left ≠ .operand := by
  cases left <;> decide

/-- Behind an operator between operands goes a void one, unless an operand is there. -/
theorem between_fillers (right : Role) :
    fillers .between right = [] ∧ right = .operand ∨
      fillers .between right = [.void] ∧ right ≠ .operand := by
  cases right <;> decide

section LineBreaks

variable (plain : ∀ token ∈ tokens, token.lexeme.fillsIn = false)
  (emits : stage.Emits ⟨.between, 0, ""⟩ tokens none written none)

include plain emits

/-- A void operand before a line break is that of the token before the line break, if there is
one. -/
theorem exists_before_void (written_eq : written = front ++ void :: lineBreak :: back)
    (isVoid : void.lexeme = .filler) (lexeme_eq : lineBreak.lexeme = .lineBreak)
    (kind_eq : lineBreak.kind = .operator .infixOp) :
    front = [] ∧ (∃ rest, tokens = lineBreak :: rest) ∨
      ∃ (before others : List Token) (left : Token), front = before ++ [left] ∧
        left.kind.role ≠ .operand ∧ tokens = others ++ [left] ++ lineBreak :: given back := by
  have given_eq := emits_given plain emits
  have breakPlain : lineBreak.lexeme.fillsIn = false := by rw [lexeme_eq]; rfl
  have voidFills : void.lexeme.fillsIn = true := by rw [isVoid]; rfl
  rw [written_eq, given_append, given_cons_filler voidFills, given_cons breakPlain] at given_eq
  rw [written_eq] at emits
  cases exists_origin plain emits with
  | read _ tokens_eq =>
      rw [plain void (by simp [tokens_eq])] at voidFills
      contradiction
  | @filled read before first second behind state role follows fill_eq front_eq back_eq role_eq =>
      cases second with
      | cons other second =>
          obtain ⟨rfl, -⟩ := List.cons.inj back_eq
          have member : lineBreak ∈ state.fill role := by simp [fill_eq]
          rw [fillsIn_of_mem_fill member] at breakPlain
          contradiction
      | nil =>
          rw [List.nil_append] at back_eq
          obtain rfl : role = .between := by
            rcases role_eq with ⟨-, between⟩ | ⟨next, rest, behind_eq, -, rfl⟩
            · exact between
            · rw [behind_eq] at back_eq
              obtain ⟨rfl, -⟩ := List.cons.inj back_eq
              rw [kind_eq]
              rfl
          rcases fillers_between state.role with ⟨none_eq, -⟩ | ⟨some_eq, left_ne⟩
          · simp [State.fill, none_eq] at fill_eq
          · obtain rfl : first = [] := by
              rw [State.fill, some_eq] at fill_eq
              simpa using congrArg List.length fill_eq
            rw [List.append_nil] at front_eq
            subst front_eq
            cases follows with
            | start => exact .inl ⟨rfl, _, given_eq.symm⟩
            | @behind others before left others_eq =>
                rw [others_eq] at given_eq
                exact .inr ⟨before, others, left, rfl, left_ne, given_eq.symm⟩

/-- A void operand behind a line break is that of the token behind the line break, if there is
one. -/
theorem exists_behind_void (written_eq : written = front ++ lineBreak :: void :: back)
    (isVoid : void.lexeme = .filler) (lexeme_eq : lineBreak.lexeme = .lineBreak)
    (kind_eq : lineBreak.kind = .operator .infixOp) :
    back = [] ∧ tokens = given front ++ [lineBreak] ∨
      ∃ right rest, back = right :: rest ∧ right.kind.role ≠ .operand ∧
        tokens = given front ++ lineBreak :: right :: given rest := by
  have given_eq := emits_given plain emits
  have breakPlain : lineBreak.lexeme.fillsIn = false := by rw [lexeme_eq]; rfl
  have voidFills : void.lexeme.fillsIn = true := by rw [isVoid]; rfl
  rw [written_eq, given_append, given_cons breakPlain, given_cons_filler voidFills] at given_eq
  rw [written_eq, List.append_cons] at emits
  cases exists_origin plain emits with
  | read _ tokens_eq =>
      rw [plain void (by simp [tokens_eq])] at voidFills
      contradiction
  | @filled read before first second behind state role follows fill_eq front_eq back_eq role_eq =>
      rcases List.eq_nil_or_concat first with rfl | ⟨others, other, rfl⟩
      · rw [List.append_nil] at front_eq
        have between : state.role = .between := by
          cases follows with
          | start => simp at front_eq
          | behind =>
              obtain ⟨-, rfl⟩ := List.append_singleton_inj.mp front_eq
              rw [State.after, kind_eq]
              rfl
        rcases between_fillers role with ⟨none_eq, -⟩ | ⟨some_eq, right_ne⟩
        · simp [State.fill, between, none_eq] at fill_eq
        · obtain rfl : second = [] := by
            rw [State.fill, between, some_eq] at fill_eq
            simpa using congrArg List.length fill_eq
          rw [List.nil_append] at back_eq
          subst back_eq
          rcases role_eq with ⟨rfl, -⟩ | ⟨next, rest, rfl, member, rfl⟩
          · exact .inl ⟨rfl, given_eq.symm⟩
          · rw [given_cons (plain next member)] at given_eq
            exact .inr ⟨next, rest, rfl, right_ne, given_eq.symm⟩
      · rw [List.concat_eq_append, ← List.append_assoc] at front_eq
        obtain ⟨-, rfl⟩ := List.append_singleton_inj.mp front_eq
        have member : lineBreak ∈ state.fill role := by simp [fill_eq]
        rw [fillsIn_of_mem_fill member] at breakPlain
        contradiction

end LineBreaks

end Alternation

/-! ## The neighbours of void operands -/

/-- Operands of a stream are left out for the operators that lack them. -/
structure Attached (tokens : List Token) : Prop where
  /-- An operator that leads what is behind it has a void operand before it, which no operator
  before that one trails. -/
  leads : ∀ (front : List Token) (operand op : Token) (back : List Token),
    tokens = front ++ operand :: op :: back → op.kind = .operator .prefixOp →
      operand.kind = .void ∧ ∀ left ∈ front.getLast?, left.kind ≠ .operator .suffixOp
  /-- An operator that trails what is before it has a void operand behind it. -/
  trails : ∀ (front : List Token) (op operand : Token) (back : List Token),
    tokens = front ++ op :: operand :: back → op.kind = .operator .suffixOp → operand.kind = .void
  /-- Before a joint, a void operand is that of the operator before it. -/
  beforeJoint : ∀ (front : List Token) (void joint : Token) (back : List Token),
    tokens = front ++ void :: joint :: back → joint.isJoint = true → void.kind = .void →
      ∃ (before : List Token) (left : Token), front = before ++ [left] ∧
        (left.kind = .operator .suffixOp ∨
          joint.lexeme = .lineBreak ∧ left.lexeme = .separator)
  /-- Behind a joint, a void operand is that of the operator behind it. -/
  behindJoint : ∀ (front : List Token) (joint void : Token) (back : List Token),
    tokens = front ++ joint :: void :: back → joint.isJoint = true → void.kind = .void →
      ∃ (right : Token) (behind : List Token), back = right :: behind ∧
        (right.kind = .operator .prefixOp ∨
          joint.lexeme = .lineBreak ∧ right.lexeme = .separator)

/-- An operand may cover more of the source in the final stream than it did before. -/
structure Widened (token other : Token) : Prop where
  same : other = token.withSpan other.span
  kept : token.isOperand = false → other = token

namespace Steps

variable {lexicon : Lexicon} {source : Source} (steps : Steps lexicon source)
  {token void joint : Token} {front back : List Token}

include steps

/-- No token of a decided stream is one that makes a stream alternate. -/
theorem decided_plain (complete : steps.failure = none) :
    ∀ token ∈ steps.decided, token.lexeme.fillsIn = false := by
  have lowers := steps.lowers
  rw [steps.readFailure_eq_none complete] at lowers
  intro token member
  obtain ⟨origin, originMember, assigns⟩ :=
    exists_of_mem_forall₂ (steps.settles complete).each member
  have lexeme_eq : token.lexeme = origin.lexeme := by
    rw [assigns.same]
    rfl
  rw [lexeme_eq]
  cases text : origin.lexeme.isIndentation with
  | true => cases indentation : origin.lexeme <;> simp_all [Lexeme.isIndentation, Lexeme.fillsIn]
  | false =>
      have read : origin ∈ steps.read := by
        rw [← Indentation.emits_texts steps.plain lowers]
        exact List.mem_filter.mpr ⟨originMember, by rw [text]; rfl⟩
      have written := (steps.read_sound origin read).2
      cases lexeme_eq : origin.lexeme <;> simp_all [Lexeme.fillsIn, Lexeme.isSynthetic]

theorem alternating_fits (complete : steps.failure = none) :
    ∀ token ∈ steps.alternating, token.Fits lexicon := by
  have alternates := steps.alternates
  exact fun token member =>
    (Alternation.emits_sound alternates (steps.decided_sound complete) token member).fits

/-- What is left out of an alternating stream was put in. -/
theorem lexeme_eq_of_void (complete : steps.failure = none) (member : void ∈ steps.alternating)
    (isVoid : void.kind = .void) : void.lexeme = .filler := by
  have allowed := (steps.alternating_fits complete void member).allowed
  rw [isVoid] at allowed
  cases lexeme_eq : void.lexeme <;> rw [lexeme_eq] at allowed <;>
    first | rfl | contradiction | (rcases allowed with allowed | allowed <;> contradiction)

theorem kind_eq_of_lineBreak (complete : steps.failure = none) (member : joint ∈ steps.alternating)
    (lexeme_eq : joint.lexeme = .lineBreak) : joint.kind = .operator .infixOp :=
  (steps.alternating_fits complete joint member).allows lexeme_eq

theorem alternating_beforeJoint (complete : steps.failure = none)
    (written_eq : steps.alternating = front ++ void :: joint :: back)
    (isJoint : joint.isJoint = true) (isVoid : void.kind = .void) :
    ∃ (before : List Token) (left : Token), front = before ++ [left] ∧
      (left.kind = .operator .suffixOp ∨
        joint.lexeme = .lineBreak ∧ left.lexeme = .separator) := by
  have alternates := steps.alternates
  rw [complete] at alternates
  have plain := steps.decided_plain complete
  have filler := steps.lexeme_eq_of_void complete (by simp [written_eq]) isVoid
  rcases (Token.isJoint_iff joint).mp isJoint with lineBreak | juxtaposes
  · have kind_eq := steps.kind_eq_of_lineBreak complete (by simp [written_eq]) lineBreak
    rcases Alternation.exists_before_void plain alternates written_eq filler lineBreak kind_eq with
      ⟨-, rest, decided_eq⟩ | ⟨before, others, left, rfl, left_ne, decided_eq⟩
    · rw [← @List.nil_append _ (joint :: rest)] at decided_eq
      obtain ⟨earlier, token, none_eq, -⟩ :=
        steps.exists_before_lineBreak complete decided_eq lineBreak
      simp at none_eq
    · obtain ⟨earlier, token, some_eq, kinds⟩ :=
        steps.exists_before_lineBreak complete decided_eq lineBreak
      obtain ⟨-, rfl⟩ := List.append_singleton_inj.mp some_eq
      refine ⟨before, left, rfl, ?_⟩
      rcases kinds with operand | suffix | separator
      · exact absurd operand left_ne
      · exact .inl suffix
      · exact .inr ⟨lineBreak, separator⟩
  · obtain ⟨before, left, front_eq, kind_eq⟩ :=
      Alternation.emits_voidFirst plain alternates written_eq filler juxtaposes
    exact ⟨before, left, front_eq, .inl kind_eq⟩

theorem alternating_behindJoint (complete : steps.failure = none)
    (blamed : blame lexicon (brackets lexicon source) = none)
    (written_eq : steps.alternating = front ++ joint :: void :: back)
    (isJoint : joint.isJoint = true) (isVoid : void.kind = .void) :
    ∃ (right : Token) (behind : List Token), back = right :: behind ∧
      (right.kind = .operator .prefixOp ∨
        joint.lexeme = .lineBreak ∧ right.lexeme = .separator) := by
  have alternates := steps.alternates
  rw [complete] at alternates
  have plain := steps.decided_plain complete
  have filler := steps.lexeme_eq_of_void complete (by simp [written_eq]) isVoid
  rcases (Token.isJoint_iff joint).mp isJoint with lineBreak | juxtaposes
  · have kind_eq := steps.kind_eq_of_lineBreak complete (by simp [written_eq]) lineBreak
    rcases Alternation.exists_behind_void plain alternates written_eq filler lineBreak kind_eq with
      ⟨-, decided_eq⟩ | ⟨right, rest, rfl, right_ne, decided_eq⟩
    · obtain ⟨next, later, none_eq, -⟩ :=
        steps.exists_behind_lineBreak complete blamed decided_eq lineBreak
      contradiction
    · obtain ⟨next, later, some_eq, kinds⟩ :=
        steps.exists_behind_lineBreak complete blamed decided_eq lineBreak
      obtain ⟨rfl, -⟩ := List.cons.inj some_eq
      refine ⟨right, rest, rfl, ?_⟩
      rcases kinds with operand | leads | separator
      · exact absurd operand right_ne
      · exact .inl leads
      · exact .inr ⟨lineBreak, separator⟩
  · obtain ⟨right, behind, back_eq, kind_eq⟩ :=
      Alternation.emits_voidLast plain alternates written_eq juxtaposes filler
    exact ⟨right, behind, back_eq, .inl kind_eq⟩

/-! ## Widened operands -/

/-- A token that is adjusted is the same but for the span of an operand. -/
theorem forall₂_written : List.Forall₂ Widened steps.alternating steps.written := by
  rw [written]
  generalize 0 = previous
  induction steps.alternating generalizing previous with
  | nil => exact .nil
  | cons token tokens ih =>
      rw [Extent.adjustTokens]
      refine .cons ?_ (ih _)
      constructor
      · rw [Extent.adjust]
        split <;> rfl
      · exact Extent.adjust_of_isOperator _

/-- Tokens side by side in the final stream come from tokens side by side. -/
theorem exists_alternating {first second : Token}
    (written_eq : steps.written = front ++ first :: second :: back) :
    ∃ before first' second' behind, steps.alternating = before ++ first' :: second' :: behind ∧
      List.Forall₂ Widened before front ∧ Widened first' first ∧ Widened second' second ∧
      List.Forall₂ Widened behind back := by
  have each := steps.forall₂_written
  rw [written_eq] at each
  obtain ⟨before, rest, alternating_eq, fronts, rests⟩ :=
    exists_of_forall₂_append (List.Forall₂.flip (R := flip Widened) each)
  obtain ⟨first', others, first_eq, othersRelated, rfl⟩ := List.forall₂_cons_left_iff.mp rests
  obtain ⟨second', behind, second_eq, backs, rfl⟩ := List.forall₂_cons_left_iff.mp othersRelated
  exact ⟨before, first', second', behind, alternating_eq, fronts.flip, first_eq, second_eq,
    backs.flip⟩

/-- Operands are left out of the final stream for the operators that lack them. -/
theorem attached (complete : steps.failure = none)
    (blamed : blame lexicon (brackets lexicon source) = none) : Attached steps.written where
  leads front operand op back written_eq leads := by
    have flanked := steps.flanked complete
    rw [written_eq, List.append_cons] at flanked
    have operator : op.isOperand = false := by
      rw [Token.isOperand, leads]
      rfl
    obtain ⟨⟨before, other, front_eq, -, starts⟩, -⟩ := flanked.split operator
    obtain ⟨rfl, rfl⟩ := List.append_singleton_inj.mp front_eq
    obtain ⟨void, -, notBehind⟩ := starts (by rw [leads]; rfl)
    refine ⟨void, fun left member kind_eq => notBehind left member ?_⟩
    rw [kind_eq]
    rfl
  trails front op operand back written_eq trails := by
    have flanked := steps.flanked complete
    rw [written_eq] at flanked
    have operator : op.isOperand = false := by
      rw [Token.isOperand, trails]
      rfl
    obtain ⟨-, rest⟩ := flanked.split operator
    rw [trails] at rest
    obtain ⟨void, rest, operand_eq, kind_eq⟩ := rest.exists_void
    obtain ⟨rfl, -⟩ := List.cons.inj operand_eq
    exact kind_eq
  beforeJoint front void joint back written_eq isJoint isVoid := by
    obtain ⟨before, _, _, behind, alternating_eq, fronts, ⟨void_eq, -⟩, ⟨joint_eq, -⟩, -⟩ :=
      steps.exists_alternating written_eq
    rw [joint_eq] at isJoint ⊢
    rw [void_eq] at isVoid
    obtain ⟨earlier, left', rfl, kinds⟩ :=
      steps.alternating_beforeJoint complete alternating_eq isJoint isVoid
    obtain ⟨before, lasts, rfl, -, lastRelated⟩ := exists_of_forall₂_append fronts
    obtain ⟨left, none, left_eq, noneRelated, rfl⟩ := List.forall₂_cons_left_iff.mp lastRelated
    cases noneRelated
    refine ⟨before, left, rfl, ?_⟩
    rw [left_eq.same]
    exact kinds
  behindJoint front joint void back written_eq isJoint isVoid := by
    obtain ⟨before, _, _, behind, alternating_eq, -, ⟨joint_eq, -⟩, ⟨void_eq, -⟩, backs⟩ :=
      steps.exists_alternating written_eq
    rw [joint_eq] at isJoint ⊢
    rw [void_eq] at isVoid
    obtain ⟨right', later, rfl, kinds⟩ :=
      steps.alternating_behindJoint complete blamed alternating_eq isJoint isVoid
    obtain ⟨right, behind, right_eq, -, rfl⟩ := List.forall₂_cons_left_iff.mp backs
    refine ⟨right, behind, rfl, ?_⟩
    rw [right_eq.same]
    exact kinds

end Steps

end OperatorMarkup
