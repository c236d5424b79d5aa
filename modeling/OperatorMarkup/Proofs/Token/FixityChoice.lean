import Mathlib.Data.List.Forall2
import OperatorMarkup.Proofs.Except
import OperatorMarkup.Proofs.Token.Placement
import OperatorMarkup.Token.FixityChoice

/-!
# Tokens of a decided stream

Deciding the fixities of operators gives undecided operators a kind and changes
nothing else: every token is written for one that was read, in the same order.
Only several operators that stand alone are refused.
-/

namespace OperatorMarkup

namespace FixityChoice

/-- A token stands for another once fixities are decided. -/
inductive Decides : Token → Token → Prop
  /-- A token was decided before. -/
  | kept {token : Token} (decided : token.kind ≠ .operator .ambiguous) : Decides token token
  /-- An undecided operator was given a kind. -/
  | chosen {token : Token} {kind : Kind} (undecided : token.kind = .operator .ambiguous)
      (chosen : kind = .nullary ∨ kind.isOperator = true) : Decides token (token.withKind kind)

/-- Tokens stand for those that were read, or for those read up to an error. -/
def DecidesUpTo (tokens written : List Token) (ending : Option Error) : Prop :=
  ∃ read rest, tokens = read ++ rest ∧ List.Forall₂ Decides read written ∧
    (ending = none → rest = [])

variable {lexicon : Lexicon} {source : Source} {textSize : Nat} {run tokens written : List Token}
  {token other : Token}

/-! ## Runs of undecided operators -/

theorem forall₂_withFixity (fixity : Fixity)
    (undecided : ∀ token ∈ run, token.kind = .operator .ambiguous) :
    List.Forall₂ Decides run (run.map (·.withFixity fixity)) := by
  induction run with
  | nil => exact .nil
  | cons token run ih =>
      rw [List.forall_mem_cons] at undecided
      exact .cons (.chosen undecided.1 (.inr rfl)) (ih undecided.2)

theorem resolve_decides {dueBefore dueAfter : Bool}
    (undecided : ∀ token ∈ run, token.kind = .operator .ambiguous)
    (resolve_eq : resolve textSize dueBefore dueAfter run = .ok written) :
    List.Forall₂ Decides run written := by
  induction run generalizing dueBefore dueAfter written with
  | nil =>
      cases resolve_eq
      exact .nil
  | cons token rest ih =>
      have parts := List.forall_mem_cons.mp undecided
      cases dueBefore with
      | true =>
          cases dueAfter with
          | true =>
              cases rest with
              | nil =>
                  cases resolve_eq
                  exact .cons (.chosen parts.1 (.inl rfl)) .nil
              | cons second rest => contradiction
          | false =>
              cases resolve_eq
              exact forall₂_withFixity .prefixOp undecided
      | false =>
          cases dueAfter with
          | true =>
              cases resolve_eq
              exact forall₂_withFixity .suffixOp undecided
          | false =>
              rw [resolve] at resolve_eq
              obtain ⟨others, others_eq, rfl⟩ := Except.map_eq_ok_iff.mp resolve_eq
              exact .cons (.chosen parts.1 (.inr rfl)) (ih parts.2 others_eq)

/-- A run is refused only as a whole, where it has more than one operator. -/
theorem resolve_error {dueBefore dueAfter : Bool} {error : Error}
    (resolve_eq : resolve textSize dueBefore dueAfter run = .error error) :
    ∃ operators, operators ≠ [] ∧ (∀ token ∈ operators, token ∈ run) ∧
      error = .ambiguousNullary operators := by
  induction run generalizing dueBefore dueAfter with
  | nil => contradiction
  | cons token rest ih =>
      cases dueBefore with
      | true =>
          cases dueAfter with
          | true =>
              cases rest with
              | nil => contradiction
              | cons second rest =>
                  cases resolve_eq
                  exact ⟨_, List.cons_ne_nil _ _, fun _ member => member, rfl⟩
          | false => contradiction
      | false =>
          cases dueAfter with
          | true => contradiction
          | false =>
              rw [resolve, Except.map_eq_error_iff] at resolve_eq
              obtain ⟨operators, nonempty, within, error_eq⟩ := ih resolve_eq
              exact ⟨operators, nonempty,
                fun token member => List.mem_cons_of_mem _ (within token member), error_eq⟩

/-! ## The stage -/

theorem step_of_ambiguous (size : Nat) (state : State)
    (ambiguous : token.kind = .operator .ambiguous) :
    (stage size).step state token = .ok (⟨token :: state.run, state.due⟩, []) := by
  change step size state token = _
  rw [step, if_pos ambiguous]

theorem step_of_decided (size : Nat) (state : State) (decided : token.kind ≠ .operator .ambiguous) :
    (stage size).step state token =
      (resolve size state.due token.kind.needsOperandBefore state.run.reverse).map fun run =>
        (⟨[], token.kind.needsOperandAfter⟩, run ++ [token]) := by
  change step size state token = _
  rw [step, if_neg decided]

/-- The stage writes a decided token for each that it reads, up to an error. -/
theorem emits_decides {state : State} {failure ending : Option Error}
    (emits : (stage textSize).Emits state tokens failure written ending)
    (undecided : ∀ token ∈ state.run, token.kind = .operator .ambiguous) :
    DecidesUpTo (state.run.reverse ++ tokens) written ending := by
  induction emits with
  | @finished state written finish_eq =>
      have decides := resolve_decides (by simpa using undecided) finish_eq
      exact ⟨state.run.reverse, [], rfl, decides, fun _ => rfl⟩
  | unfinished | failed | refused => exact ⟨[], _, rfl, .nil, nofun⟩
  | @step state next token tokens now later failure ending step_eq _ ih =>
      simp only [stage, FixityChoice.step] at step_eq
      split at step_eq
      · next ambiguous =>
          cases step_eq
          obtain ⟨read, rest, split_eq, decides, complete⟩ :=
            ih (List.forall_mem_cons.mpr ⟨ambiguous, undecided⟩)
          exact ⟨read, rest, by simpa using split_eq, decides, complete⟩
      · next decided =>
          obtain ⟨resolved, resolve_eq, result_eq⟩ := Except.map_eq_ok_iff.mp step_eq
          cases result_eq
          obtain ⟨read, rest, split_eq, decides, complete⟩ := ih (by simp)
          have now := resolve_decides (by simpa using undecided) resolve_eq
          refine ⟨state.run.reverse ++ [token] ++ read, rest, ?_, ?_, complete⟩
          · simpa using split_eq
          · exact List.rel_append (List.rel_append now (.cons (.kept decided) .nil)) decides

/-- An error of the stage itself is about some undecided operators. -/
theorem emits_error {state : State} {failure : Option Error} {error : Error}
    (emits : (stage textSize).Emits state tokens failure written (some error))
    (undecided : ∀ token ∈ state.run,
      token.kind = .operator .ambiguous ∧ token.Sound lexicon source)
    (sound : ∀ token ∈ tokens, token.Sound lexicon source) :
    failure = some error ∨ ∃ operators, operators ≠ [] ∧
      (∀ token ∈ operators, token.kind = .operator .ambiguous ∧ token.Sound lexicon source) ∧
      error = .ambiguousNullary operators := by
  have ended := emits.ending_cases (fun state => ∀ token ∈ state.run,
    token.kind = .operator .ambiguous ∧ token.Sound lexicon source) ?_ undecided sound
  · rcases ended with failed | ⟨reached, kept, finish_eq | ⟨token, _, step_eq⟩⟩
    · exact .inl failed
    · obtain ⟨operators, nonempty, within, error_eq⟩ := resolve_error finish_eq
      exact .inr ⟨operators, nonempty,
        fun token member => kept token (List.mem_reverse.mp (within token member)), error_eq⟩
    · simp only [stage, FixityChoice.step] at step_eq
      split at step_eq
      · contradiction
      · rw [Except.map_eq_error_iff] at step_eq
        obtain ⟨operators, nonempty, within, error_eq⟩ := resolve_error step_eq
        exact .inr ⟨operators, nonempty,
          fun token member => kept token (List.mem_reverse.mp (within token member)), error_eq⟩
  · intro state token next now kept tokenSound step_eq
    simp only [stage, FixityChoice.step] at step_eq
    split at step_eq
    · next ambiguous =>
        cases step_eq
        exact List.forall_mem_cons.mpr ⟨⟨ambiguous, tokenSound⟩, kept⟩
    · obtain ⟨resolved, _, result_eq⟩ := Except.map_eq_ok_iff.mp step_eq
      cases result_eq
      simp

/-! ## What deciding keeps -/

namespace Decides

/-- Only operator characters are undecided. -/
theorem lexeme_eq_of_undecided (fits : token.Fits lexicon)
    (undecided : token.kind = .operator .ambiguous) : token.lexeme = .operator := by
  have allowed := fits.allowed
  rw [undecided] at allowed
  cases lexeme_eq : token.lexeme <;> simp_all [Lexeme.Allows]

theorem sound (decides : Decides token other) (sound : token.Sound lexicon source) :
    other.Sound lexicon source := by
  cases decides with
  | kept => exact sound
  | chosen undecided chosen =>
      have lexeme_eq := lexeme_eq_of_undecided sound.fits undecided
      refine ⟨⟨?_, sound.fits.spelled, sound.fits.line_operator⟩, sound.seated⟩
      change token.lexeme.Allows _
      rw [lexeme_eq]
      exact chosen

theorem forall_sound (decides : List.Forall₂ Decides tokens written)
    (allSound : ∀ token ∈ tokens, token.Sound lexicon source) :
    ∀ token ∈ written, token.Sound lexicon source := by
  induction decides with
  | nil => simp
  | cons first _ ih =>
      rw [List.forall_mem_cons] at allSound
      exact List.forall_mem_cons.mpr ⟨first.sound allSound.1, ih allSound.2⟩

/-- Delimiters are decided, and stay as they are. -/
theorem delimiters_eq (decides : List.Forall₂ Decides tokens written)
    (fits : ∀ token ∈ tokens, token.Fits lexicon) : delimiters written = delimiters tokens := by
  induction decides with
  | nil => rfl
  | cons first _ ih =>
      rw [List.forall_mem_cons] at fits
      have rest := ih fits.2
      simp only [delimiters, List.filter_cons] at rest ⊢
      rw [rest]
      cases first with
      | kept => rfl
      | chosen undecided =>
          have lexeme_eq := lexeme_eq_of_undecided fits.1 undecided
          simp [Token.withKind, lexeme_eq, Lexeme.isDelimiter]

theorem placed {offset : Nat} {gap : String} (decides : List.Forall₂ Decides tokens written)
    (placed : Placed lexicon source offset gap tokens) :
    Placed lexicon source offset gap written := by
  induction decides generalizing offset gap with
  | nil => exact placed
  | cons first _ ih =>
      cases placed with
      | inserted synthetic span_eq rest =>
          cases first <;> exact .inserted synthetic span_eq (ih rest)
      | written written holds blank before_eq start_eq covers rest =>
          cases first <;>
            exact .written written holds blank before_eq start_eq covers (ih rest)

end Decides

end FixityChoice

end OperatorMarkup
