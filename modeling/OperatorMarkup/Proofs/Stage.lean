import OperatorMarkup.Proofs.Except
import OperatorMarkup.Stage

/-!
# What stages write

A stream is a list of tokens, with the error that ends it where there is one.
What a stage writes for a stream is a stream again: the tokens of its steps, up
to the first error.
-/

namespace OperatorMarkup

/-- The items of some tokens, and of the error behind them where there is one. -/
def stream (tokens : List Token) (failure : Option Error) : List Item :=
  tokens.map .ok ++ failure.toList.map .error

theorem stream_cons (token : Token) (tokens : List Token) (failure : Option Error) :
    stream (token :: tokens) failure = .ok token :: stream tokens failure :=
  rfl

theorem stream_none (tokens : List Token) : stream tokens none = tokens.map .ok :=
  List.append_nil _

theorem map_ok_append_stream (first second : List Token) (failure : Option Error) :
    first.map .ok ++ stream second failure = stream (first ++ second) failure := by
  simp [stream]

/-- A stream tells its tokens and its error. -/
theorem stream_inj {first second : List Token} {failure failure' : Option Error}
    (stream_eq : stream first failure = stream second failure') :
    first = second ∧ failure = failure' := by
  induction first generalizing second with
  | nil =>
      cases second <;> cases failure <;> cases failure' <;> simp_all [stream]
  | cons token first ih =>
      cases second with
      | nil => cases failure' <;> simp [stream] at stream_eq
      | cons other second =>
          rw [stream_cons, stream_cons] at stream_eq
          obtain ⟨token_eq, rest_eq⟩ := List.cons.inj stream_eq
          obtain ⟨rfl, failure_eq⟩ := ih rest_eq
          exact ⟨by rw [Except.ok.inj token_eq], failure_eq⟩

/-- A stream whose items are all tokens does not end in an error. -/
theorem failure_eq_none {tokens : List Token} {failure : Option Error}
    (noError : ∀ item ∈ stream tokens failure, ∃ token, item = .ok token) : failure = none := by
  cases failure with
  | none => rfl
  | some error =>
      obtain ⟨token, item_eq⟩ := noError (.error error) (by simp [stream])
      contradiction

/-- Where two lists end in the same way, what follows an element of the one lies behind it
in the front of the other, or the element lies behind that front. -/
theorem append_cons_eq_append {α : Type} {front back first second : List α} {x : α}
    (split_eq : front ++ x :: back = first ++ second) :
    (∃ rest, first = front ++ x :: rest ∧ back = rest ++ second) ∨
      ∃ rest, front = first ++ rest ∧ second = rest ++ x :: back := by
  rcases List.append_eq_append_iff.mp split_eq with ⟨rest, rfl, rest_eq⟩ | ⟨rest, rfl, rest_eq⟩
  · rcases List.cons_eq_append_iff.mp rest_eq with ⟨rfl, rfl⟩ | ⟨rest, rfl, rfl⟩
    · exact .inr ⟨[], by simp, rfl⟩
    · exact .inl ⟨rest, rfl, rfl⟩
  · exact .inr ⟨rest, rfl, rest_eq⟩

namespace Stage

variable {σ : Type} {stage : Stage σ}

/-- What a stage writes from a state on for some tokens, and for the error behind
them: some tokens, and an error behind those. -/
inductive Emits (stage : Stage σ) :
    σ → List Token → Option Error → List Token → Option Error → Prop
  /-- The stream ends, and the last tokens are written. -/
  | finished {state : σ} {written : List Token} (finish_eq : stage.finish state = .ok written) :
      Emits stage state [] none written none
  /-- The stream ends where the stage cannot. -/
  | unfinished {state : σ} {error : Error} (finish_eq : stage.finish state = .error error) :
      Emits stage state [] none [] (some error)
  /-- The stream ends in an error. -/
  | failed {state : σ} (error : Error) : Emits stage state [] (some error) [] (some error)
  /-- A token is refused. -/
  | refused {state : σ} {token : Token} {error : Error} (tokens : List Token)
      (failure : Option Error) (step_eq : stage.step state token = .error error) :
      Emits stage state (token :: tokens) failure [] (some error)
  /-- A token is read. -/
  | step {state next : σ} {token : Token} {tokens now later : List Token}
      {failure ending : Option Error} (step_eq : stage.step state token = .ok (next, now))
      (rest : Emits stage next tokens failure later ending) :
      Emits stage state (token :: tokens) failure (now ++ later) ending

/-- A stage writes a stream for a stream. -/
theorem Emits.outputFrom_eq {state : σ} {tokens written : List Token}
    {failure ending : Option Error} (emits : Emits stage state tokens failure written ending) :
    stage.outputFrom state (stream tokens failure) = stream written ending := by
  induction emits with
  | finished finish_eq =>
      change stage.outputFrom _ [] = _
      rw [outputFrom_nil, finish_eq]
      simp [stream]
  | unfinished finish_eq =>
      change stage.outputFrom _ [] = _
      rw [outputFrom_nil, finish_eq]
      rfl
  | failed error => exact outputFrom_error stage _ error []
  | refused tokens failure step_eq =>
      rw [stream_cons, outputFrom_ok, step_eq]
      rfl
  | @step state next token tokens now later failure ending step_eq _ ih =>
      rw [stream_cons, outputFrom_ok, step_eq]
      change now.map .ok ++ stage.outputFrom next (stream tokens failure) = _
      rw [ih, map_ok_append_stream]

/-- A stage writes something for every stream. -/
theorem exists_emits (stage : Stage σ) (state : σ) (tokens : List Token)
    (failure : Option Error) :
    ∃ written ending, Emits stage state tokens failure written ending ∧
      stage.outputFrom state (stream tokens failure) = stream written ending := by
  suffices total : ∃ written ending, Emits stage state tokens failure written ending by
    obtain ⟨written, ending, emits⟩ := total
    exact ⟨written, ending, emits, emits.outputFrom_eq⟩
  induction tokens generalizing state with
  | nil =>
      cases failure with
      | none =>
          cases finish_eq : stage.finish state with
          | ok written => exact ⟨written, none, .finished finish_eq⟩
          | error error => exact ⟨[], some error, .unfinished finish_eq⟩
      | some error => exact ⟨[], some error, .failed error⟩
  | cons token tokens ih =>
      cases step_eq : stage.step state token with
      | error error => exact ⟨[], some error, .refused tokens failure step_eq⟩
      | ok result =>
          obtain ⟨later, ending, emits⟩ := ih result.1
          exact ⟨result.2 ++ later, ending, .step step_eq emits⟩

/-- A stage reads some tokens from a state on, writes others for them, and comes to a
state. -/
inductive Reaches (stage : Stage σ) : σ → List Token → List Token → σ → Prop
  /-- Nothing is read. -/
  | refl (state : σ) : Reaches stage state [] [] state
  /-- A token is read. -/
  | step {state next last : σ} {token : Token} {tokens now later : List Token}
      (step_eq : stage.step state token = .ok (next, now))
      (rest : Reaches stage next tokens later last) :
      Reaches stage state (token :: tokens) (now ++ later) last

/-- What a step keeps, of what has been read and written before it, is kept up to every
state that is reached. -/
theorem Reaches.invariant (holds : List Token → List Token → σ → Prop) {reads : Token → Prop}
    (stepHolds : ∀ read written token state next now, holds read written state → reads token →
      stage.step state token = .ok (next, now) → holds (read ++ [token]) (written ++ now) next)
    {state last : σ} {tokens later read written : List Token}
    (reaches : stage.Reaches state tokens later last) (here : holds read written state)
    (allRead : ∀ token ∈ tokens, reads token) : holds (read ++ tokens) (written ++ later) last := by
  induction reaches generalizing read written with
  | refl => simpa using here
  | step step_eq _ ih =>
      rw [List.forall_mem_cons] at allRead
      simpa using ih (stepHolds _ _ _ _ _ _ here allRead.1 step_eq) allRead.2

namespace Emits

variable {state : σ} {tokens written : List Token} {failure ending : Option Error}

/-- Only an error-free stream is written without an error. -/
theorem failure_eq_none (emits : Emits stage state tokens failure written none) :
    failure = none := by
  generalize ending_eq : (none : Option Error) = ending at emits
  induction emits with
  | finished => rfl
  | unfinished | failed | refused => contradiction
  | step _ _ ih => exact ih ending_eq

/-- A property of tokens passes through a stage, step by step and at its end,
along with what it keeps of its states. -/
theorem forall_written {reads writes : Token → Prop} (keeps : σ → Prop)
    (stepKeeps : ∀ state token next now, keeps state → reads token →
      stage.step state token = .ok (next, now) → keeps next ∧ ∀ other ∈ now, writes other)
    (finishKeeps : ∀ state last, keeps state → stage.finish state = .ok last →
      ∀ other ∈ last, writes other)
    (emits : Emits stage state tokens failure written ending) (started : keeps state)
    (allRead : ∀ token ∈ tokens, reads token) : ∀ other ∈ written, writes other := by
  induction emits with
  | finished finish_eq => exact finishKeeps _ _ started finish_eq
  | unfinished | failed | refused => simp
  | step step_eq _ ih =>
      rw [List.forall_mem_cons] at allRead
      have step := stepKeeps _ _ _ _ started allRead.1 step_eq
      intro other member
      rcases List.mem_append.mp member with now | later
      · exact step.2 other now
      · exact ih step.1 allRead.2 other later

/-- An error that a stage writes is the one that it reads, or one of a step or of
its end that some property of the states reached speaks about. -/
theorem ending_cases {reads : Token → Prop} {error : Error} (keeps : σ → Prop)
    (stepKeeps : ∀ state token next now, keeps state → reads token →
      stage.step state token = .ok (next, now) → keeps next)
    (emits : Emits stage state tokens failure written (some error)) (started : keeps state)
    (allRead : ∀ token ∈ tokens, reads token) :
    failure = some error ∨ ∃ reached, keeps reached ∧
      (stage.finish reached = .error error ∨
        ∃ token, reads token ∧ stage.step reached token = .error error) := by
  generalize ending_eq : some error = ending at emits
  induction emits with
  | finished => contradiction
  | unfinished finish_eq =>
      obtain rfl := Option.some.inj ending_eq
      exact .inr ⟨_, started, .inl finish_eq⟩
  | failed _ =>
      obtain rfl := Option.some.inj ending_eq
      exact .inl rfl
  | refused tokens failure step_eq =>
      obtain rfl := Option.some.inj ending_eq
      exact .inr ⟨_, started, .inr ⟨_, allRead _ List.mem_cons_self, step_eq⟩⟩
  | step step_eq _ ih =>
      rw [List.forall_mem_cons] at allRead
      exact ih (stepKeeps _ _ _ _ started allRead.1 step_eq) allRead.2 ending_eq

/-- A stage that puts in only tokens that a property skips keeps the others. -/
theorem filter_eq {p : Token → Bool}
    (stepSkips : ∀ state token, ∃ next fillers,
      stage.step state token = .ok (next, fillers ++ [token]) ∧ fillers.filter p = [])
    (finishSkips : ∀ state, ∃ fillers, stage.finish state = .ok fillers ∧ fillers.filter p = [])
    (emits : Emits stage state tokens failure written ending) :
    written.filter p = tokens.filter p := by
  induction emits with
  | @finished state written finish_eq =>
      obtain ⟨fillers, ok_eq, none_eq⟩ := finishSkips state
      rw [ok_eq] at finish_eq
      cases finish_eq
      exact none_eq
  | unfinished | failed => rfl
  | @refused state token error _ _ step_eq =>
      obtain ⟨next, fillers, ok_eq, -⟩ := stepSkips state token
      rw [ok_eq] at step_eq
      contradiction
  | @step state next token tokens now later failure ending step_eq _ ih =>
      obtain ⟨next, fillers, ok_eq, none_eq⟩ := stepSkips state token
      rw [ok_eq] at step_eq
      cases step_eq
      rw [List.append_assoc, List.filter_append, none_eq, List.nil_append, List.filter_append, ih,
        ← List.filter_append, List.singleton_append]

/-- A stage that ends without an error has read what comes first before the rest. -/
theorem split {front back : List Token}
    (emits : Emits stage state (front ++ back) failure written none) :
    ∃ middle before behind, written = before ++ behind ∧
      stage.Reaches state front before middle ∧ Emits stage middle back failure behind none := by
  induction front generalizing state written with
  | nil => exact ⟨state, [], written, rfl, .refl state, emits⟩
  | cons token front ih =>
      cases emits with
      | @step _ _ _ _ now _ _ _ step_eq rest =>
          obtain ⟨middle, before, behind, rfl, reaches, emits⟩ := ih rest
          exact ⟨middle, now ++ before, behind, (List.append_assoc _ _ _).symm,
            .step step_eq reaches, emits⟩

/-- A stage that ends without an error has read all tokens, and can end behind them. -/
theorem exists_finish (emits : Emits stage state tokens failure written none) :
    ∃ reached before last, written = before ++ last ∧ stage.Reaches state tokens before reached ∧
      stage.finish reached = .ok last := by
  rw [← List.append_nil tokens] at emits
  obtain ⟨reached, before, last, rfl, reaches, ends⟩ := emits.split
  cases ends with
  | finished finish_eq => exact ⟨reached, before, last, rfl, reaches, finish_eq⟩

/-- A stage that ends in an error of its own has come to a state in which it cannot end or
cannot read on. -/
theorem exists_failing {error : Error}
    (emits : Emits stage state tokens none written (some error)) :
    ∃ reached read rest, tokens = read ++ rest ∧ stage.Reaches state read written reached ∧
      (rest = [] ∧ stage.finish reached = .error error ∨
        ∃ token behind, rest = token :: behind ∧ stage.step reached token = .error error) := by
  generalize failure_eq : (none : Option Error) = failure at emits
  generalize ending_eq : some error = ending at emits
  induction emits with
  | finished | failed => contradiction
  | unfinished finish_eq =>
      cases ending_eq
      exact ⟨_, [], [], rfl, .refl _, .inl ⟨rfl, finish_eq⟩⟩
  | refused tokens failure step_eq =>
      cases ending_eq
      exact ⟨_, [], _, rfl, .refl _, .inr ⟨_, tokens, rfl, step_eq⟩⟩
  | @step state next token tokens now later failure ending step_eq rest ih =>
      obtain ⟨reached, read, behind, rfl, reaches, fails⟩ := ih failure_eq ending_eq
      exact ⟨reached, token :: read, behind, rfl, .step step_eq reaches, fails⟩

/-- A token that is written is written for one that is read, or at the end. -/
theorem exists_writing {front back : List Token} {token : Token}
    (emits : Emits stage state tokens failure (front ++ token :: back) none) :
    ∃ reached read before first second, stage.Reaches state read before reached ∧
      front = before ++ first ∧
      ((∃ next source rest later, tokens = read ++ source :: rest ∧
          stage.step reached source = .ok (next, first ++ token :: second) ∧
          back = second ++ later ∧ Emits stage next rest failure later none) ∨
        tokens = read ∧ stage.finish reached = .ok (first ++ token :: second) ∧
          back = second) := by
  generalize written_eq : front ++ token :: back = written at emits
  generalize ending_eq : (none : Option Error) = ending at emits
  induction emits generalizing front with
  | finished finish_eq =>
      rw [← written_eq] at finish_eq
      exact ⟨_, [], [], front, back, .refl _, rfl, .inr ⟨rfl, finish_eq, rfl⟩⟩
  | unfinished | failed | refused => contradiction
  | @step state next source tokens now later failure ending step_eq rest ih =>
      subst ending_eq
      rcases append_cons_eq_append written_eq with
        ⟨second, rfl, rfl⟩ | ⟨behind, rfl, later_eq⟩
      · exact ⟨_, [], [], front, second, .refl _, rfl,
          .inl ⟨next, source, tokens, later, rfl, step_eq, rfl, rest⟩⟩
      · obtain ⟨reached, read, before, first, second, reaches, rfl, comes⟩ := ih later_eq.symm rfl
        refine ⟨reached, source :: read, now ++ before, first, second, .step step_eq reaches,
          (List.append_assoc _ _ _).symm, ?_⟩
        rcases comes with ⟨next, source', rest', later, rfl, comes⟩ | ⟨rfl, comes⟩
        · exact .inl ⟨next, source', rest', later, rfl, comes⟩
        · exact .inr ⟨rfl, comes⟩

/-! ### Two runs -/

section TwoRuns

variable {σ' : Type} {stage' : Stage σ'} {state' : σ'} {tokens' written' : List Token}
  {failure' ending' : Option Error} {names : Error → Error → Prop} {token token' : Token}

/-- Two stages that end alike write alike at the end, or end in errors alike. -/
theorem nil_related {last : List Token → List Token → Prop} (none_last : last [] [])
    (finishes : Except.Related names last (stage.finish state) (stage'.finish state'))
    (emits : Emits stage state [] none written ending)
    (emits' : Emits stage' state' [] none written' ending') :
    last written written' ∧ Option.Rel names ending ending' := by
  cases emits with
  | finished finish_eq =>
      rw [finish_eq] at finishes
      cases emits' with
      | finished finish_eq' =>
          rw [finish_eq'] at finishes
          cases finishes with
          | ok same => exact ⟨same, .none⟩
      | unfinished finish_eq' =>
          rw [finish_eq'] at finishes
          contradiction
  | unfinished finish_eq =>
      rw [finish_eq] at finishes
      cases emits' with
      | finished finish_eq' =>
          rw [finish_eq'] at finishes
          contradiction
      | unfinished finish_eq' =>
          rw [finish_eq'] at finishes
          cases finishes with
          | error named => exact ⟨none_last, .some named⟩

/-- Two stages that read a token alike go on alike, or end in errors alike. -/
theorem cons_related {next : σ × List Token → σ' × List Token → Prop}
    (steps : Except.Related names next (stage.step state token) (stage'.step state' token'))
    (emits : Emits stage state (token :: tokens) failure written ending)
    (emits' : Emits stage' state' (token' :: tokens') failure' written' ending') :
    (∃ reached now later reached' now' later', next (reached, now) (reached', now') ∧
        written = now ++ later ∧ written' = now' ++ later' ∧
        Emits stage reached tokens failure later ending ∧
        Emits stage' reached' tokens' failure' later' ending') ∨
      written = [] ∧ written' = [] ∧ Option.Rel names ending ending' := by
  cases emits with
  | refused _ _ step_eq =>
      rw [step_eq] at steps
      cases emits' with
      | refused _ _ step_eq' =>
          rw [step_eq'] at steps
          cases steps with
          | error named => exact .inr ⟨rfl, rfl, .some named⟩
      | step step_eq' _ =>
          rw [step_eq'] at steps
          contradiction
  | step step_eq rest =>
      rw [step_eq] at steps
      cases emits' with
      | refused _ _ step_eq' =>
          rw [step_eq'] at steps
          contradiction
      | step step_eq' rest' =>
          rw [step_eq'] at steps
          cases steps with
          | ok same => exact .inl ⟨_, _, _, _, _, _, same, rfl, rfl, rest, rest'⟩

end TwoRuns

end Emits

end Stage

end OperatorMarkup
