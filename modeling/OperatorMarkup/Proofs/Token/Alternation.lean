import OperatorMarkup.Proofs.Token.Placement
import OperatorMarkup.Token.Alternation

/-!
# Tokens of an alternating stream

Whatever comes before a token, what is put in between makes an operand and an
operator follow each other.  None of it is a delimiter, and all of it lies at the
start of a gap.
-/

namespace OperatorMarkup

/-- Tokens are operands and operators in turn.  The first flag says that an
operand is due before them, and the second that one is due behind them. -/
inductive Turns : Bool → List Token → Bool → Prop
  /-- What is due stays due. -/
  | nil (due : Bool) : Turns due [] due
  /-- What was due comes next. -/
  | cons {due after : Bool} {token : Token} {tokens : List Token} (turn : token.isOperand = due)
      (rest : Turns (!due) tokens after) : Turns due (token :: tokens) after

theorem Turns.append {due middle after : Bool} {first second : List Token}
    (turns : Turns due first middle) (next : Turns middle second after) :
    Turns due (first ++ second) after := by
  induction turns with
  | nil => exact next
  | cons turn _ ih => exact .cons turn (ih next)

/-- Whether an operand is due behind a token of a part. -/
def Role.due : Role → Bool
  | operand => false
  | before | between | behind => true

theorem Token.isOperand_eq_not_due (token : Token) : token.isOperand = !token.kind.role.due := by
  rw [Token.isOperand]
  cases token.kind with
  | operator fixity => cases fixity <;> rfl
  | identifier | nullary | void => rfl

namespace Alternation

variable {lexicon : Lexicon} {source : Source} {state : State} {token : Token}
  {tokens written : List Token} {failure ending : Option Error}

/-- What is put in before a token makes its turn. -/
theorem turns_fill (state : State) (token : Token) :
    Turns state.role.due (state.fill token.kind.role ++ [token]) token.kind.role.due := by
  have turn := token.isOperand_eq_not_due
  cases role_eq : token.kind.role <;> cases before_eq : state.role <;>
    rw [role_eq] at turn <;> simp only [State.fill, before_eq, fillers] <;>
    repeat' first | exact Turns.nil _ | apply Turns.cons
  all_goals first | rfl | exact turn

/-- What is put in at the end leaves no operand due. -/
theorem turns_fill_end (state : State) : Turns state.role.due (state.fill .between) false := by
  cases before_eq : state.role <;> simp only [State.fill, before_eq, fillers] <;>
    repeat' first | exact Turns.nil _ | apply Turns.cons
  all_goals rfl

/-- What is put in is a void operand or a juxtaposition. -/
theorem mem_fill {role : Role} {filler : Token} (member : filler ∈ state.fill role) :
    filler = state.token .void ∨ filler = state.token .juxtaposition := by
  obtain ⟨kind, _, rfl⟩ := List.mem_map.mp member
  cases kind
  · exact .inl rfl
  · exact .inr rfl

theorem mem_fill_atOffset {role : Role} :
    ∀ filler ∈ state.fill role, filler.lexeme.isSynthetic = true ∧
      filler.span = .point state.offset := by
  intro filler member
  rcases mem_fill member with rfl | rfl <;> exact ⟨rfl, rfl⟩

theorem mem_fill_sound {role : Role} :
    ∀ filler ∈ state.fill role, filler.Sound lexicon source := by
  intro filler member
  rcases mem_fill member with rfl | rfl <;> exact Token.synthetic_sound _ _ rfl rfl

/-! ## The stage -/

theorem stage_inserts : stage.Inserts State.offset where
  step_eq _ _ := ⟨_, _, rfl, rfl, mem_fill_atOffset⟩
  finish_eq _ := ⟨_, rfl, mem_fill_atOffset⟩

theorem emits_sound (emits : stage.Emits state tokens failure written ending)
    (sound : ∀ token ∈ tokens, token.Sound lexicon source) :
    ∀ token ∈ written, token.Sound lexicon source := by
  refine emits.forall_written (fun _ => True) ?_ ?_ trivial sound
  · rintro state token next now - tokenSound ⟨⟩
    refine ⟨trivial, fun other member => ?_⟩
    rcases List.mem_append.mp member with filler | read
    · exact mem_fill_sound other filler
    · rwa [List.mem_singleton.mp read]
  · rintro state last - ⟨⟩
    exact mem_fill_sound

/-- The tokens written alternate, and end with an operand where the stream does
not end in an error. -/
theorem emits_turns (emits : stage.Emits state tokens failure written ending) :
    ∃ after, Turns state.role.due written after ∧ (ending = none → after = false) := by
  induction emits with
  | @finished state written finish_eq =>
      cases finish_eq
      exact ⟨false, turns_fill_end state, fun _ => rfl⟩
  | unfinished | failed | refused => exact ⟨_, .nil _, nofun⟩
  | @step state next token tokens now later failure ending step_eq _ ih =>
      cases step_eq
      obtain ⟨after, turns, complete⟩ := ih
      exact ⟨after, (turns_fill state token).append turns, complete⟩

/-- What no void operand and no juxtaposition is passes through. -/
theorem emits_filter {p : Token → Bool}
    (skips : ∀ state filler, p (State.token state filler) = false)
    (emits : stage.Emits state tokens failure written ending) :
    written.filter p = tokens.filter p := by
  have skipped : ∀ state role, (State.fill state role).filter p = [] := by
    intro state role
    apply List.filter_eq_nil_iff.mpr
    intro filler member
    rcases mem_fill member with rfl | rfl <;> simp [skips]
  exact emits.filter_eq (fun state token => ⟨_, _, rfl, skipped state _⟩)
    fun state => ⟨_, rfl, skipped state _⟩

/-- Delimiters pass through. -/
theorem emits_delimiters (emits : stage.Emits state tokens failure written ending) :
    delimiters written = delimiters tokens :=
  emits_filter (fun state filler => by cases filler <;> rfl) emits

/-- Tokens from behind an operator of the given part on, an operand first and last.
Behind an operator that lacks an operand, and before one, there is a void operand, and
no operand lies between two such. -/
inductive Flanked : Role → List Token → Prop
  /-- A last operand. -/
  | last {role : Role} {token : Token} (operand : token.isOperand = true)
      (ends : role = .behind → token.kind = .void) : Flanked role [token]
  /-- An operand with an operator behind it. -/
  | cons {role : Role} {token op : Token} {tokens : List Token} (operand : token.isOperand = true)
      (operator : op.isOperand = false) (ends : role = .behind → token.kind = .void)
      (starts : op.kind.role = .before → token.kind = .void ∧ role ≠ .behind)
      (rest : Flanked op.kind.role tokens) : Flanked role (token :: op :: tokens)

namespace Flanked

variable {role : Role} {front back tokens : List Token} {op : Token}

/-- An operator that lacks the operand before it has a void one there, and none that
lacks the operand behind it has the same. -/
theorem split (flanked : Flanked role (front ++ op :: back)) (operator : op.isOperand = false) :
    (∃ before operand, front = before ++ [operand] ∧ operand.isOperand = true ∧
      (op.kind.role = .before → operand.kind = .void ∧ (before = [] → role ≠ .behind) ∧
        ∀ left ∈ before.getLast?, left.kind.role ≠ .behind)) ∧
      Flanked op.kind.role back := by
  generalize tokens_eq : front ++ op :: back = tokens at flanked
  induction flanked generalizing front with
  | last operand ends =>
      cases front with
      | nil =>
          cases tokens_eq
          rw [operator] at operand
          contradiction
      | cons first front => simp at tokens_eq
  | @cons role token left tokens operand leftOperator ends starts rest ih =>
      match front with
      | [] =>
          cases tokens_eq
          rw [operator] at operand
          contradiction
      | [only] =>
          cases tokens_eq
          refine ⟨⟨[], token, rfl, operand, fun before => ?_⟩, rest⟩
          exact ⟨(starts before).1, fun _ => (starts before).2, by simp⟩
      | first :: second :: front =>
          simp only [List.cons_append, List.cons.injEq] at tokens_eq
          obtain ⟨rfl, rfl, tokens_eq⟩ := tokens_eq
          obtain ⟨⟨before, last, rfl, isOperand, flank⟩, behind⟩ := ih tokens_eq
          refine ⟨⟨first :: second :: before, last, rfl, isOperand, fun starts => ?_⟩, behind⟩
          obtain ⟨void, atStart, notBehind⟩ := flank starts
          refine ⟨void, by simp, ?_⟩
          cases before with
          | nil => simpa using atStart rfl
          | cons third before => simpa using notBehind

/-- Behind an operator that lacks its operand there is a void one. -/
theorem exists_void (flanked : Flanked .behind tokens) :
    ∃ void rest, tokens = void :: rest ∧ void.kind = .void := by
  cases flanked with
  | last _ ends => exact ⟨_, _, rfl, ends rfl⟩
  | cons _ _ ends => exact ⟨_, _, rfl, ends rfl⟩

end Flanked

/-- The same from behind any token on: behind an operand, it holds from each operator
on that the operand may have before it. -/
def FlankedAfter (role : Role) (tokens : List Token) : Prop :=
  match role with
  | .operand => ∀ left token, left ≠ .behind → token.isOperand = true →
      Flanked left (token :: tokens)
  | role => Flanked role tokens

/-- A juxtaposition parts an operand from what comes next. -/
theorem Flanked.juxtaposition {role : Role} {operand : Token} (isOperand : operand.isOperand = true)
    (ends : role = .behind → operand.kind = .void) (state : State)
    (rest : Flanked .between tokens) :
    Flanked role (operand :: state.token .juxtaposition :: tokens) :=
  .cons isOperand rfl ends nofun rest

/-- What starts with an operand, or with a void one before an operator that lacks it,
may stand behind an operator that lacks none. -/
theorem flanked_lead {role : Role} (notBehind : role ≠ .behind) (state : State)
    (rest : FlankedAfter token.kind.role tokens) :
    (token.kind.role = .operand → Flanked role (token :: tokens)) ∧
      (token.kind.role = .before → Flanked role (state.token .void :: token :: tokens)) := by
  have turn := token.isOperand_eq_not_due
  constructor
  · intro role_eq
    rw [role_eq] at rest turn
    exact rest role token notBehind turn
  · intro role_eq
    rw [role_eq] at turn
    refine .cons rfl turn (fun _ => rfl) (fun _ => ⟨rfl, notBehind⟩) ?_
    rw [role_eq] at rest ⊢
    exact rest

/-- An operator that needs an operand before it may stand behind any. -/
theorem flanked_trail {role : Role} {operand : Token} (isOperand : operand.isOperand = true)
    (ends : role = .behind → operand.kind = .void)
    (trails : token.kind.role = .between ∨ token.kind.role = .behind)
    (rest : FlankedAfter token.kind.role tokens) : Flanked role (operand :: token :: tokens) := by
  have turn := token.isOperand_eq_not_due
  rcases trails with role_eq | role_eq
  all_goals
    rw [role_eq] at turn
    refine .cons isOperand turn ends (fun starts => absurd (role_eq.symm.trans starts) (by decide)) ?_
    rw [role_eq] at rest ⊢
    exact rest

/-- What is put in before a token keeps operators flanked. -/
theorem flanked_fill (state : State) (rest : FlankedAfter token.kind.role tokens) :
    FlankedAfter state.role (state.fill token.kind.role ++ token :: tokens) := by
  have lead := fun role notBehind => @flanked_lead token tokens role notBehind state rest
  have trail := fun role operand isOperand ends trails =>
    @flanked_trail token tokens role operand isOperand ends trails rest
  cases before_eq : state.role <;> cases role_eq : token.kind.role <;>
    simp only [State.fill, before_eq, fillers, List.map_cons, List.map_nil, List.cons_append,
      List.nil_append]
  case operand.operand =>
    exact fun left operand notBehind isOperand => .juxtaposition isOperand
      (fun behind => absurd behind notBehind) state ((lead .between (by decide)).1 role_eq)
  case operand.before =>
    exact fun left operand notBehind isOperand => .juxtaposition isOperand
      (fun behind => absurd behind notBehind) state ((lead .between (by decide)).2 role_eq)
  case operand.between | operand.behind =>
    exact fun left operand notBehind isOperand => trail left operand isOperand
      (fun behind => absurd behind notBehind) (by simp [role_eq])
  case behind.operand =>
    exact .juxtaposition rfl (fun _ => rfl) state ((lead .between (by decide)).1 role_eq)
  case behind.before =>
    exact .juxtaposition rfl (fun _ => rfl) state ((lead .between (by decide)).2 role_eq)
  case before.operand => exact (lead .before (by decide)).1 role_eq
  case between.operand => exact (lead .between (by decide)).1 role_eq
  case before.before => exact (lead .before (by decide)).2 role_eq
  case between.before => exact (lead .between (by decide)).2 role_eq
  all_goals exact trail _ _ rfl (fun _ => rfl) (by simp [role_eq])

/-- What is put in at the end lacks nothing. -/
theorem flanked_fill_end (state : State) : FlankedAfter state.role (state.fill .between) := by
  cases before_eq : state.role <;>
    simp only [State.fill, before_eq, fillers, List.map_cons, List.map_nil]
  case operand =>
    exact fun left operand notBehind isOperand =>
      .last isOperand fun behind => absurd behind notBehind
  all_goals exact .last rfl fun _ => rfl

/-- In an alternating stream, operators that lack an operand have a void one. -/
theorem emits_flanked (emits : stage.Emits state tokens failure written none) :
    FlankedAfter state.role written := by
  generalize ending_eq : (none : Option Error) = ending at emits
  induction emits with
  | @finished state written finish_eq =>
      cases finish_eq
      exact flanked_fill_end state
  | unfinished | failed | refused => contradiction
  | @step state next token tokens now later failure ending step_eq _ ih =>
      cases step_eq
      rw [List.append_assoc]
      exact flanked_fill state (ih ending_eq)

end Alternation

end OperatorMarkup
