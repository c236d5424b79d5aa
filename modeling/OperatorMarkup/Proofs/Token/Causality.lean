import OperatorMarkup.Proofs.Token.OperatorRuns
import OperatorMarkup.Token.Alternation
import OperatorMarkup.Token.Indentation

/-!
# Stages do not look ahead

A stage reads all of some tokens and comes to a state, or refuses one of them.  Either way,
what it has written by then stands whatever follows the tokens.  An error that follows them
ends what is written, and nothing is written on its account but the error.
-/

namespace OperatorMarkup

/-- What is written for tokens and an error behind them is some tokens, which are written
whatever follows, and one error.  It is the error that was read, unless the tokens alone are
refused, and then their error ends whatever is written. -/
structure StopsAt (write : List Item → List Item) (refuses : List Token → Error → Prop)
    (tokens : List Token) (error : Error) (written : List Token) (ending : Error) : Prop where
  ends : ∀ behind, write (tokens.map .ok ++ .error error :: behind) =
    written.map .ok ++ [.error ending]
  stands : ∀ items, written.map .ok <+: write (tokens.map .ok ++ items)
  cause : ending = error ∨ refuses tokens ending ∧
    ∀ items, write (tokens.map .ok ++ items) = written.map .ok ++ [.error ending]

/-- Whatever the tokens and the error behind them, writing stops at an error, and nothing
before it depends on what follows the tokens. -/
def IsCausal (write : List Item → List Item) (refuses : List Token → Error → Prop) : Prop :=
  ∀ tokens error, ∃ written ending, StopsAt write refuses tokens error written ending

namespace Stage

variable {σ : Type} {stage : Stage σ} {state last : σ} {tokens written : List Token}

/-- What is written for some tokens comes before all that is written behind them. -/
theorem Reaches.outputFrom_append (reaches : stage.Reaches state tokens written last)
    (items : List Item) :
    stage.outputFrom state (tokens.map .ok ++ items) =
      written.map .ok ++ stage.outputFrom last items := by
  induction reaches with
  | refl => rfl
  | @step state next last token tokens now later step_eq _ ih =>
      rw [List.map_cons, List.cons_append, outputFrom_ok, step_eq]
      change now.map .ok ++ stage.outputFrom next (tokens.map .ok ++ items) = _
      rw [ih, List.map_append, List.append_assoc]

/-- A stage reads all of some tokens, or comes to one that it refuses. -/
theorem exists_reaches_or_refused (stage : Stage σ) (state : σ) (tokens : List Token) :
    (∃ written last, stage.Reaches state tokens written last) ∨
      ∃ read token behind written last error, tokens = read ++ token :: behind ∧
        stage.Reaches state read written last ∧ stage.step last token = .error error := by
  induction tokens generalizing state with
  | nil => exact .inl ⟨[], state, .refl state⟩
  | cons token tokens ih =>
      cases step_eq : stage.step state token with
      | error error => exact .inr ⟨[], token, tokens, [], state, error, rfl, .refl state, step_eq⟩
      | ok result =>
          rcases ih result.1 with ⟨later, last, rest⟩ |
            ⟨read, refused, behind, later, last, error, rfl, rest, refused_eq⟩
          · exact .inl ⟨result.2 ++ later, last, .step step_eq rest⟩
          · exact .inr ⟨token :: read, refused, behind, result.2 ++ later, last, error, rfl,
              .step step_eq rest, refused_eq⟩

/-- What a stage has written for some tokens stands whatever follows them, and an error ends
it. -/
theorem run_isCausal {refuses : List Token → Error → Prop}
    (each : ∀ read written last token error, stage.Reaches stage.start read written last →
      stage.step last token = .error error → ∀ behind, refuses (read ++ token :: behind) error) :
    IsCausal stage.run refuses := by
  intro tokens error
  rcases stage.exists_reaches_or_refused stage.start tokens with
    ⟨written, last, reaches⟩ |
      ⟨read, token, behind, written, last, refusal, rfl, reaches, refused_eq⟩
  · refine ⟨written, error, fun behind => ?_, fun items => ?_, .inl rfl⟩
    · rw [run, reaches.outputFrom_append, outputFrom_error]
    · rw [run, reaches.outputFrom_append]
      exact List.prefix_append _ _
  · have whatever : ∀ items, stage.run ((read ++ token :: behind).map .ok ++ items) =
        written.map .ok ++ [.error refusal] := by
      intro items
      rw [List.map_append, List.append_assoc, run, reaches.outputFrom_append, List.map_cons,
        List.cons_append, outputFrom_ok, refused_eq]
    refine ⟨written, refusal, fun _ => whatever _, fun items => ?_, .inr ⟨?_, whatever⟩⟩
    · rw [whatever]
      exact List.prefix_append _ _
    · exact each read written last token refusal reaches refused_eq behind

end Stage

/-- Tokens hold several operators that stand where a single operand has to, with a token
behind them that shows it, and an error is about them. -/
def FixityChoice.RefusesRun (tokens : List Token) (error : Error) : Prop :=
  ∃ front run next back, IsRun tokens front run (next :: back) ∧
    Crowded front run (next :: back) ∧ error = .ambiguousNullary run

/-- A token is refused for the run before it. -/
theorem FixityChoice.refusesRun_of_step {textSize : Nat} {read written : List Token}
    {state : State} {token : Token} {error : Error}
    (reaches : (stage textSize).Reaches (stage textSize).start read written state)
    (step_eq : (stage textSize).step state token = .error error) (behind : List Token) :
    RefusesRun (read ++ token :: behind) error := by
  by_cases ambiguous : token.kind = .operator .ambiguous
  · rw [step_of_ambiguous _ _ ambiguous] at step_eq
    contradiction
  · rw [step_of_decided _ _ ambiguous, Except.map_eq_error_iff] at step_eq
    have starts : StartsDecided (token :: behind) := by
      intro next member
      rw [List.head?_cons, Option.mem_some_iff] at member
      exact member ▸ ambiguous
    obtain ⟨front, run, isRun, crowded, error_eq, _⟩ := (decided_of_reaches reaches).exists_crowded
      (suffixContext_cons token behind).symm starts step_eq
    exact ⟨front, run, token, behind, isRun, crowded, error_eq⟩

/-- What is written by any of the stages before an error does not depend on what follows,
and the error ends it.  Only the choice of fixities refuses tokens itself. -/
theorem stages_causal (textSize : Nat) :
    IsCausal lowerIndentation (fun _ _ => False) ∧
      IsCausal (chooseFixities textSize) FixityChoice.RefusesRun ∧
      IsCausal alternate (fun _ _ => False) := by
  refine ⟨Stage.run_isCausal ?_, Stage.run_isCausal ?_, Stage.run_isCausal ?_⟩
  · exact fun _ _ _ _ _ _ step_eq => nomatch step_eq
  · exact fun _ _ _ _ _ reaches step_eq => FixityChoice.refusesRun_of_step reaches step_eq
  · exact fun _ _ _ _ _ _ step_eq => nomatch step_eq

end OperatorMarkup
