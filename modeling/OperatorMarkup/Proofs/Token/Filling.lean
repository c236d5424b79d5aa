import Mathlib
import OperatorMarkup.Proofs.Token.Alternation
import OperatorMarkup.Token.Reading

/-!
# What makes a stream alternate

Operands and operators of a stream take turns once void operands and juxtapositions are put
in.  Each of these lies at the end of the token before it, and a void operand is put in only
where an operator lacks one.
-/

namespace OperatorMarkup

/-- Whether a token is put in so that operands and operators take turns. -/
def Lexeme.fillsIn : Lexeme → Bool
  | juxtaposition | filler => true
  | word | operator | separator | opener | closer | indent | dedent | lineBreak => false

theorem Kind.eq_of_role_before {kind : Kind} (before : kind.role = .before) :
    kind = .operator .prefixOp := by
  cases kind with
  | identifier | nullary | void => contradiction
  | operator fixity => cases fixity <;> first | rfl | contradiction

theorem Kind.eq_of_role_behind {kind : Kind} (behind : kind.role = .behind) :
    kind = .operator .suffixOp := by
  cases kind with
  | identifier | nullary | void => contradiction
  | operator fixity => cases fixity <;> first | rfl | contradiction

variable {due after : Bool} {tokens : List Token}

/-! ## Turns -/

/-- The tokens in even places are of one sort, and those in odd places of the other. -/
theorem Turns.isOperand_getElem (turns : Turns due tokens after) (i : Nat)
    (inside : i < tokens.length) : tokens[i].isOperand = (due == decide (i % 2 = 0)) := by
  induction turns generalizing i with
  | nil => exact absurd inside (Nat.not_lt_zero i)
  | @cons due after token tokens turn _ ih =>
      cases i with
      | zero => simpa using turn
      | succ i =>
          have shorter : i < tokens.length := by simpa using inside
          have parity : decide ((i + 1) % 2 = 0) = !decide (i % 2 = 0) := by
            rw [← decide_not, decide_eq_decide]
            omega
          rw [List.getElem_cons_succ, ih i shorter, parity]
          cases due <;> cases decide (i % 2 = 0) <;> rfl

/-- What is due behind some tokens depends on whether they are of an even number. -/
theorem Turns.after_eq (turns : Turns due tokens after) :
    after = (due == decide (tokens.length % 2 = 0)) := by
  induction turns with
  | nil due => cases due <;> rfl
  | @cons due after token tokens _ _ ih =>
      have parity : decide ((tokens.length + 1) % 2 = 0) = !decide (tokens.length % 2 = 0) := by
        rw [← decide_not, decide_eq_decide]
        omega
      rw [ih, List.length_cons, parity]
      cases due <;> cases decide (tokens.length % 2 = 0) <;> rfl

namespace Alternation

/-! ## Views of a stream -/

/-- The tokens of a stream but those that are put in. -/
def given (tokens : List Token) : List Token :=
  tokens.filter (!·.lexeme.fillsIn)

/-- The offset behind some tokens, which is the start of the text where there are none. -/
def endOf (tokens : List Token) : Nat :=
  (tokens.getLast?.map (·.span.stop)).getD 0

/-- An operand without text that is put in. -/
structure IsVoid (token : Token) : Prop where
  putIn : token.lexeme = .filler
  kind_eq : token.kind = .void
  empty : token.span.start = token.span.stop

variable {state : State} {token next : Token} {written read front back first second : List Token}
  {role : Role}

theorem given_append (first second : List Token) :
    given (first ++ second) = given first ++ given second :=
  List.filter_append ..

theorem given_singleton (plain : token.lexeme.fillsIn = false) : given [token] = [token] := by
  simp [given, plain]

/-! ## What is put in -/

theorem fillsIn_of_mem_fill (member : token ∈ state.fill role) : token.lexeme.fillsIn = true := by
  rcases mem_fill member with rfl | rfl <;> rfl

theorem given_fill (role : Role) : given (state.fill role) = [] := by
  apply List.filter_eq_nil_iff.mpr
  intro filler member
  simp [fillsIn_of_mem_fill member]

theorem isVoid_token (state : State) : IsVoid (state.token .void) :=
  ⟨rfl, rfl, rfl⟩

/-- Before an operator that lacks the operand before it, a void one is put in last. -/
theorem fill_before (state : State) :
    ∃ first, state.fill .before = first ++ [state.token .void] := by
  cases role_eq : state.role <;>
    simp only [State.fill, role_eq, fillers, List.map_cons, List.map_nil]
  case operand => exact ⟨[_], rfl⟩
  case behind => exact ⟨[_, _], rfl⟩
  all_goals exact ⟨[], rfl⟩

/-- Behind an operator that lacks the operand behind it, a void one is put in first. -/
theorem fill_behind (behind : state.role = .behind) (role : Role) :
    ∃ second, state.fill role = state.token .void :: second := by
  cases role <;> simp only [State.fill, behind, fillers, List.map_cons, List.map_nil]
  all_goals exact ⟨_, rfl⟩

theorem fillers_length_le (left right : Role) : (fillers left right).length ≤ 3 := by
  cases left <;> cases right <;> decide

/-- A void operand comes before a juxtaposition only behind an operator that lacks one. -/
theorem behind_of_fillers {left right : Role} {before behind : List Filler}
    (fillers_eq : fillers left right = before ++ .void :: .juxtaposition :: behind) :
    before = [] ∧ left = .behind := by
  -- Three tokens are put in at most, so at most one comes before the two.
  have size := fillers_length_le left right
  rw [fillers_eq] at size
  match before with
  | [] | [_] => cases left <;> cases right <;> simp_all [fillers]
  | _ :: _ :: _ =>
      simp at size
      omega

/-- A void operand comes behind a juxtaposition only before an operator that lacks one. -/
theorem before_of_fillers {left right : Role} {before behind : List Filler}
    (fillers_eq : fillers left right = before ++ .juxtaposition :: .void :: behind) :
    behind = [] ∧ right = .before := by
  have size := fillers_length_le left right
  rw [fillers_eq] at size
  match before with
  | [] | [_] => cases left <;> cases right <;> simp_all [fillers]
  | _ :: _ :: _ =>
      simp at size
      omega

/-! ## Where tokens come from -/

/-- What has been read and written where a state is reached. -/
inductive Follows : List Token → List Token → State → Prop
  /-- Nothing is read. -/
  | start : Follows [] [] ⟨.between, 0, ""⟩
  /-- A token is read behind some others. -/
  | behind {front before : List Token} {token : Token}
      (given_eq : given (before ++ [token]) = front ++ [token]) :
      Follows (front ++ [token]) (before ++ [token]) (.after token)

namespace Follows

theorem given_eq (follows : Follows read written state) : given written = read := by
  cases follows with
  | start => rfl
  | behind given_eq => exact given_eq

theorem offset_eq (follows : Follows read written state) : state.offset = endOf read := by
  cases follows with
  | start => rfl
  | behind => simp [State.after, endOf]

/-- Behind an operator that lacks its operand, that operator is the last token written. -/
theorem exists_operator (follows : Follows read written state) (behind : state.role = .behind) :
    ∃ before operator, written = before ++ [operator] ∧ operator.kind = .operator .suffixOp := by
  cases follows with
  | start => contradiction
  | @behind front before token given_eq =>
      exact ⟨before, token, rfl, Kind.eq_of_role_behind behind⟩

theorem step (follows : Follows read written state) (plain : token.lexeme.fillsIn = false) :
    Follows (read ++ [token]) (written ++ (state.fill token.kind.role ++ [token]))
      (.after token) := by
  rw [← List.append_assoc]
  apply Follows.behind
  rw [given_append, given_append, follows.given_eq, given_fill, given_singleton plain,
    List.append_nil]

end Follows

theorem follows_of_reaches (plain : ∀ token ∈ tokens, token.lexeme.fillsIn = false)
    (reaches : stage.Reaches ⟨.between, 0, ""⟩ tokens written state) :
    Follows tokens written state := by
  refine reaches.invariant Follows ?_ .start plain
  intro read written token state next now follows plain step_eq
  have later := follows.step plain
  cases Except.ok.inj step_eq
  exact later

/-- Where a token of an alternating stream comes from. -/
inductive Origin (tokens front : List Token) (token : Token) (back : List Token) : Prop
  /-- It was read. -/
  | read {read before rest : List Token} {state : State} (follows : Follows read before state)
      (tokens_eq : tokens = read ++ token :: rest)
      (front_eq : front = before ++ state.fill token.kind.role)
      (emits : stage.Emits (.after token) rest none back none)
  /-- It was put in before one that was read, or at the end. -/
  | filled {read before first second behind : List Token} {state : State} {role : Role}
      (follows : Follows read before state) (fill_eq : state.fill role = first ++ token :: second)
      (front_eq : front = before ++ first) (back_eq : back = second ++ behind)
      (role_eq : behind = [] ∧ role = .between ∨
        ∃ next rest, behind = next :: rest ∧ next ∈ tokens ∧ next.kind.role = role)

/-- A token that is written was read or put in. -/
theorem exists_origin (plain : ∀ token ∈ tokens, token.lexeme.fillsIn = false)
    (emits : stage.Emits ⟨.between, 0, ""⟩ tokens none (front ++ token :: back) none) :
    Origin tokens front token back := by
  obtain ⟨state, read, before, first, second, reaches, rfl, comes⟩ := emits.exists_writing
  rcases comes with
    ⟨next, source, rest, later, rfl, step_eq, rfl, continues⟩ | ⟨rfl, finish_eq, rfl⟩
  · have follows := follows_of_reaches (fun other member => plain other (by simp [member])) reaches
    obtain ⟨rfl, output_eq⟩ := Prod.mk.inj (Except.ok.inj step_eq)
    rcases append_cons_eq_append output_eq.symm with
      ⟨others, fill_eq, rfl⟩ | ⟨others, rfl, source_eq⟩
    · refine .filled follows fill_eq rfl (by simp) (.inr ⟨source, later, rfl, by simp, rfl⟩)
    · rcases List.singleton_eq_append_iff.mp source_eq with ⟨rfl, one_eq⟩ | ⟨-, none_eq⟩
      · obtain ⟨rfl, rfl⟩ := List.cons.inj one_eq
        exact .read follows rfl (by simp) continues
      · contradiction
  · have follows := follows_of_reaches plain reaches
    exact .filled follows (Except.ok.inj finish_eq) rfl (by simp) (.inl ⟨rfl, rfl⟩)

/-! ## An alternating stream -/

/-- Some tokens, with operands and operators put in so that they take turns. -/
structure Completes (tokens written : List Token) : Prop where
  odd : written.length % 2 = 1
  isOperand_iff : ∀ i (inside : i < written.length), written[i].isOperand = true ↔ i % 2 = 0
  given_eq : given written = tokens
  /-- An operator that lacks the operand before it has a void one there. -/
  leads : ∀ front operator back, written = front ++ operator :: back →
    operator.kind = .operator .prefixOp → ∃ before void, front = before ++ [void] ∧ IsVoid void
  /-- An operator that lacks the operand behind it has a void one there. -/
  trails : ∀ front operator back, written = front ++ operator :: back →
    operator.kind = .operator .suffixOp → ∃ void behind, back = void :: behind ∧ IsVoid void
  /-- What is put in lies at the end of the token before it. -/
  places : ∀ front filler back, written = front ++ filler :: back →
    filler.lexeme.fillsIn = true → filler.span = .point (endOf (given front))
  /-- A void operand stands before a juxtaposition only behind an operator that lacks one. -/
  voidFirst : ∀ front void juxtaposition back, written = front ++ void :: juxtaposition :: back →
    void.lexeme = .filler → juxtaposition.lexeme = .juxtaposition →
      ∃ before operator, front = before ++ [operator] ∧ operator.kind = .operator .suffixOp
  /-- A void operand stands behind a juxtaposition only before an operator that lacks one. -/
  voidLast : ∀ front juxtaposition void back, written = front ++ juxtaposition :: void :: back →
    juxtaposition.lexeme = .juxtaposition → void.lexeme = .filler →
      ∃ operator behind, back = operator :: behind ∧ operator.kind = .operator .prefixOp

theorem lexeme_of_mem_fill (member : token ∈ state.fill role) :
    token.lexeme = .filler ∧ token.kind = .void ∨
      token.lexeme = .juxtaposition ∧ token.kind = .operator .infixOp := by
  rcases mem_fill member with rfl | rfl
  · exact .inl ⟨rfl, rfl⟩
  · exact .inr ⟨rfl, rfl⟩

theorem eq_void_of_lexeme_eq {filler : Filler} (lexeme_eq : (state.token filler).lexeme = .filler) :
    filler = .void := by
  cases filler
  · rfl
  · contradiction

theorem eq_juxtaposition_of_lexeme_eq {filler : Filler}
    (lexeme_eq : (state.token filler).lexeme = .juxtaposition) : filler = .juxtaposition := by
  cases filler
  · contradiction
  · rfl

/-- What is put in is told by its lexemes. -/
theorem fillers_of_fill_eq {x y : Token} (fill_eq : state.fill role = first ++ x :: y :: second) :
    ∃ before left right behind, fillers state.role role = before ++ left :: right :: behind ∧
      first = before.map state.token ∧ x = state.token left ∧ y = state.token right ∧
      second = behind.map state.token := by
  obtain ⟨before, rest, fillers_eq, rfl, rest_eq⟩ := List.map_eq_append_iff.mp fill_eq
  obtain ⟨left, others, rfl, rfl, others_eq⟩ := List.map_eq_cons_iff.mp rest_eq
  obtain ⟨right, behind, rfl, rfl, rfl⟩ := List.map_eq_cons_iff.mp others_eq
  exact ⟨before, left, right, behind, fillers_eq, rfl, rfl, rfl, rfl⟩

/-- Behind an operator that lacks the operand behind it, a void one is written. -/
theorem emits_of_behind (behind : state.role = .behind)
    (emits : stage.Emits state tokens none written none) :
    ∃ rest, written = state.token .void :: rest := by
  cases emits with
  | finished finish_eq =>
      obtain ⟨rest, fill_eq⟩ := fill_behind behind .between
      exact ⟨rest, (Except.ok.inj finish_eq).symm.trans fill_eq⟩
  | @step _ _ token _ _ later _ _ step_eq =>
      obtain ⟨rest, fill_eq⟩ := fill_behind behind token.kind.role
      cases Except.ok.inj step_eq
      exact ⟨rest ++ [token] ++ later, by simp [fill_eq]⟩

/-- Two tokens side by side that are put in for the same pair of tokens. -/
inductive Pair (front : List Token) (x y : Token) (back : List Token) : Prop
  /-- A token is read before them, and another is read behind them or none is. -/
  | intro {read before behind : List Token} {state : State} {role : Role}
      {first second : List Filler} {left right : Filler} (follows : Follows read before state)
      (fillers_eq : fillers state.role role = first ++ left :: right :: second)
      (front_eq : front = before ++ first.map state.token) (x_eq : x = state.token left)
      (y_eq : y = state.token right) (back_eq : back = second.map state.token ++ behind)
      (role_eq : behind = [] ∧ role = .between ∨
        ∃ next rest, behind = next :: rest ∧ next.kind.role = role)

section Written

variable (plain : ∀ token ∈ tokens, token.lexeme.fillsIn = false)
  (emits : stage.Emits ⟨.between, 0, ""⟩ tokens none written none)

include plain emits

theorem emits_given : given written = tokens := by
  have kept : given written = given tokens :=
    emits_filter (fun state filler => by cases filler <;> rfl) emits
  rw [kept, given, List.filter_eq_self]
  intro token member
  rw [plain token member]
  rfl

theorem emits_leads {operator : Token} (written_eq : written = front ++ operator :: back)
    (leads : operator.kind = .operator .prefixOp) :
    ∃ before void, front = before ++ [void] ∧ IsVoid void := by
  subst written_eq
  cases exists_origin plain emits with
  | @read _ before _ state _ _ front_eq _ =>
      rw [leads] at front_eq
      obtain ⟨others, fill_eq⟩ := fill_before state
      refine ⟨before ++ others, state.token .void, ?_, isVoid_token state⟩
      rw [front_eq, List.append_assoc, ← fill_eq]
      rfl
  | filled _ fill_eq =>
      rcases lexeme_of_mem_fill (fill_eq ▸ List.mem_append_right _ List.mem_cons_self) with
        ⟨-, kind_eq⟩ | ⟨-, kind_eq⟩ <;>
        rw [leads] at kind_eq <;> contradiction

theorem emits_trails {operator : Token} (written_eq : written = front ++ operator :: back)
    (trails : operator.kind = .operator .suffixOp) :
    ∃ void behind, back = void :: behind ∧ IsVoid void := by
  subst written_eq
  cases exists_origin plain emits with
  | read _ _ _ continues =>
      have behind : (State.after operator).role = .behind := by
        rw [State.after, trails]
        rfl
      obtain ⟨rest, rfl⟩ := emits_of_behind behind continues
      exact ⟨_, rest, rfl, isVoid_token _⟩
  | filled _ fill_eq =>
      rcases lexeme_of_mem_fill (fill_eq ▸ List.mem_append_right _ List.mem_cons_self) with
        ⟨-, kind_eq⟩ | ⟨-, kind_eq⟩ <;>
        rw [trails] at kind_eq <;> contradiction

theorem emits_places {filler : Token} (written_eq : written = front ++ filler :: back)
    (fillsIn : filler.lexeme.fillsIn = true) :
    filler.span = .point (endOf (given front)) := by
  subst written_eq
  cases exists_origin plain emits with
  | read _ tokens_eq =>
      rw [plain filler (by simp [tokens_eq])] at fillsIn
      contradiction
  | @filled read before first second _ state role follows fill_eq front_eq =>
      have member : filler ∈ state.fill role :=
        fill_eq ▸ List.mem_append_right _ List.mem_cons_self
      have filled : given first = [] := by
        have none := @given_fill state role
        rw [fill_eq, given_append] at none
        exact (List.append_eq_nil_iff.mp none).1
      rw [(mem_fill_atOffset filler member).2, front_eq, given_append, follows.given_eq, filled,
        List.append_nil, follows.offset_eq]

theorem exists_pair {x y : Token} (written_eq : written = front ++ x :: y :: back)
    (xFillsIn : x.lexeme.fillsIn = true) (yFillsIn : y.lexeme.fillsIn = true) :
    Pair front x y back := by
  subst written_eq
  cases exists_origin plain emits with
  | read _ tokens_eq =>
      rw [plain x (by simp [tokens_eq])] at xFillsIn
      contradiction
  | @filled read before first second behind state role follows fill_eq front_eq back_eq role_eq =>
      cases second with
      | nil =>
          rw [List.nil_append] at back_eq
          rcases role_eq with ⟨rfl, -⟩ | ⟨next, rest, rfl, member, -⟩
          · contradiction
          · obtain ⟨rfl, -⟩ := List.cons.inj back_eq
            rw [plain y member] at yFillsIn
            contradiction
      | cons other second =>
          obtain ⟨rfl, rfl⟩ := List.cons.inj back_eq
          obtain ⟨earlier, left, right, later, fillers_eq, rfl, rfl, rfl, rfl⟩ :=
            fillers_of_fill_eq fill_eq
          refine .intro follows fillers_eq front_eq rfl rfl rfl ?_
          rcases role_eq with atEnd | ⟨next, rest, behind_eq, -, same⟩
          · exact .inl atEnd
          · exact .inr ⟨next, rest, behind_eq, same⟩

theorem emits_voidFirst {void juxtaposition : Token}
    (written_eq : written = front ++ void :: juxtaposition :: back)
    (isVoid : void.lexeme = .filler) (juxtaposes : juxtaposition.lexeme = .juxtaposition) :
    ∃ before operator, front = before ++ [operator] ∧ operator.kind = .operator .suffixOp := by
  obtain ⟨follows, fillers_eq, rfl, rfl, rfl, -, -⟩ :=
    exists_pair plain emits written_eq (by rw [isVoid]; rfl) (by rw [juxtaposes]; rfl)
  obtain rfl := eq_void_of_lexeme_eq isVoid
  obtain rfl := eq_juxtaposition_of_lexeme_eq juxtaposes
  obtain ⟨rfl, behind⟩ := behind_of_fillers fillers_eq
  simpa using follows.exists_operator behind

theorem emits_voidLast {void juxtaposition : Token}
    (written_eq : written = front ++ juxtaposition :: void :: back)
    (juxtaposes : juxtaposition.lexeme = .juxtaposition) (isVoid : void.lexeme = .filler) :
    ∃ operator behind, back = operator :: behind ∧ operator.kind = .operator .prefixOp := by
  obtain ⟨-, fillers_eq, -, rfl, rfl, rfl, role_eq⟩ :=
    exists_pair plain emits written_eq (by rw [juxtaposes]; rfl) (by rw [isVoid]; rfl)
  obtain rfl := eq_juxtaposition_of_lexeme_eq juxtaposes
  obtain rfl := eq_void_of_lexeme_eq isVoid
  obtain ⟨rfl, rfl⟩ := before_of_fillers fillers_eq
  rcases role_eq with ⟨-, between⟩ | ⟨next, rest, rfl, before⟩
  · contradiction
  · exact ⟨next, rest, rfl, Kind.eq_of_role_before before⟩

end Written

/-- A stream alternates without an error once void operands and juxtapositions are put in. -/
theorem alternate_completes (plain : ∀ token ∈ tokens, token.lexeme.fillsIn = false) :
    ∃ written, alternate (tokens.map .ok) = written.map .ok ∧ Completes tokens written := by
  obtain ⟨written, ending, emits, output_eq⟩ := stage.exists_emits ⟨.between, 0, ""⟩ tokens none
  obtain rfl := stage_inserts.ending_eq emits
  rw [stream_none, stream_none] at output_eq
  obtain ⟨after, turns, complete⟩ := emits_turns emits
  obtain rfl := complete rfl
  refine ⟨written, output_eq, ?_, ?_, emits_given plain emits, ?_, ?_, ?_, ?_, ?_⟩
  · have even := turns.after_eq
    simpa [Role.due] using even
  · intro i inside
    rw [turns.isOperand_getElem i inside]
    simp [Role.due]
  · exact fun _ _ _ => emits_leads plain emits
  · exact fun _ _ _ => emits_trails plain emits
  · exact fun _ _ _ => emits_places plain emits
  · exact fun _ _ _ _ => emits_voidFirst plain emits
  · exact fun _ _ _ _ => emits_voidLast plain emits

/-- A word in brackets between two others. -/
def enclosedTokens : List Token :=
  (tokenize .standard { text := "a [b] c" }).filterMap Except.toOption

theorem alternate_enclosed : (∀ token ∈ enclosedTokens, token.lexeme.fillsIn = false) ∧
    ∃ written, alternate (enclosedTokens.map .ok) = written.map .ok ∧
      Completes enclosedTokens written := by
  have none : enclosedTokens.all (!·.lexeme.fillsIn) = true := by cbv
  have plain : ∀ token ∈ enclosedTokens, token.lexeme.fillsIn = false := by simpa using none
  exact ⟨plain, alternate_completes plain⟩

end Alternation

end OperatorMarkup
