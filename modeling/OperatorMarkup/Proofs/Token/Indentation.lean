import OperatorMarkup.Proofs.Token.Placement
import OperatorMarkup.Token.Indentation

/-!
# Tokens of a lowered stream

Indents, dedents and line breaks are put in at the start of the gap that they
stand for, so the tokens still fit their lexemes and lie one behind the other.
-/

namespace OperatorMarkup

variable {lexicon : Lexicon} {source : Source}

namespace Indentation

/-- A token that is put in behind another is an indent, a dedent or a line
break. -/
def IsInserted (token filler : Token) : Prop :=
  ∃ fixity lexeme, filler = inserted token fixity lexeme ∧
    (lexeme = .indent ∧ fixity = .infixOp ∨ lexeme = .dedent ∧ fixity = .suffixOp ∨
      lexeme = .lineBreak ∧ fixity = .infixOp)

theorem isInserted_lineBreakBetween (token next : Token) :
    ∀ filler ∈ lineBreakBetween token next, IsInserted token filler := by
  rw [lineBreakBetween]
  split
  · simp
  · intro filler member
    rw [List.mem_singleton.mp member]
    exact ⟨_, _, rfl, .inr (.inr ⟨rfl, rfl⟩)⟩

theorem isInserted_replicate (token : Token) (count : Nat) :
    ∀ filler ∈ List.replicate count (inserted token .suffixOp .dedent),
      IsInserted token filler := by
  intro filler member
  rw [List.eq_of_mem_replicate member]
  exact ⟨_, _, rfl, .inr (.inl ⟨rfl, rfl⟩)⟩

theorem isInserted_cross (state : State) (next : Token) :
    ∀ filler ∈ (cross state next).2, IsInserted state.token filler := by
  simp only [cross]
  split
  · simp
  · split
    · split
      · simp
      · exact isInserted_lineBreakBetween _ _
    · split
      · intro filler member
        rw [List.mem_singleton.mp member]
        exact ⟨_, _, rfl, .inl ⟨rfl, rfl⟩⟩
      · intro filler member
        rcases List.mem_append.mp member with dedent | lineBreak
        · exact isInserted_replicate _ _ filler dedent
        · exact isInserted_lineBreakBetween _ _ filler lineBreak

namespace IsInserted

variable {token filler : Token}

theorem atStop (inserted : IsInserted token filler) :
    filler.lexeme.isSynthetic = true ∧ filler.span = .point token.span.stop := by
  obtain ⟨fixity, lexeme, rfl, ⟨rfl, rfl⟩ | ⟨rfl, rfl⟩ | ⟨rfl, rfl⟩⟩ := inserted <;>
    exact ⟨rfl, rfl⟩

theorem sound (inserted : IsInserted token filler) : filler.Sound lexicon source := by
  obtain ⟨fixity, lexeme, rfl, ⟨rfl, rfl⟩ | ⟨rfl, rfl⟩ | ⟨rfl, rfl⟩⟩ := inserted <;>
    exact Token.synthetic_sound _ _ rfl rfl

end IsInserted

/-- Where the next token is put in. -/
def State.offset : Option State → Nat
  | none => 0
  | some state => state.token.span.stop

theorem stage_inserts : stage.Inserts State.offset := by
  constructor
  · intro state token
    cases state with
    | none => exact ⟨_, [], rfl, rfl, by simp⟩
    | some state =>
        exact ⟨_, _, rfl, rfl,
          fun filler member => (isInserted_cross state token filler member).atStop⟩
  · intro state
    cases state with
    | none => exact ⟨[], rfl, by simp⟩
    | some state =>
        exact ⟨_, rfl, fun filler member => (isInserted_replicate _ _ filler member).atStop⟩

theorem emits_sound {state : Option State} {tokens written : List Token}
    {failure ending : Option Error} (emits : stage.Emits state tokens failure written ending)
    (sound : ∀ token ∈ tokens, token.Sound lexicon source) :
    ∀ token ∈ written, token.Sound lexicon source := by
  refine emits.forall_written (fun _ => True) ?_ ?_ trivial sound
  · intro state token next now _ tokenSound step_eq
    refine ⟨trivial, fun other member => ?_⟩
    cases state with
    | none =>
        cases step_eq
        rwa [List.mem_singleton.mp member]
    | some state =>
        cases step_eq
        rcases List.mem_append.mp member with filler | read
        · exact (isInserted_cross state token other filler).sound
        · rwa [List.mem_singleton.mp read]
  · intro state last _ finish_eq other member
    cases state with
    | none =>
        cases finish_eq
        exact absurd member List.not_mem_nil
    | some state =>
        cases finish_eq
        exact (isInserted_replicate _ _ other member).sound

/-- What no indent, dedent or line break is passes through. -/
theorem emits_filter {p : Token → Bool}
    (skips : ∀ token filler, IsInserted token filler → p filler = false) {state : Option State}
    {tokens written : List Token} {failure ending : Option Error}
    (emits : stage.Emits state tokens failure written ending) :
    written.filter p = tokens.filter p := by
  have skipped : ∀ {token : Token} {fillers : List Token},
      (∀ filler ∈ fillers, IsInserted token filler) → fillers.filter p = [] :=
    fun allInserted => List.filter_eq_nil_iff.mpr fun filler member => by
      simp [skips _ filler (allInserted filler member)]
  refine emits.filter_eq (fun state token => ?_) fun state => ?_
  · cases state with
    | none => exact ⟨_, [], rfl, rfl⟩
    | some state => exact ⟨_, _, rfl, skipped (isInserted_cross state token)⟩
  · cases state with
    | none => exact ⟨[], rfl, rfl⟩
    | some state => exact ⟨_, rfl, skipped (isInserted_replicate state.token _)⟩

end Indentation

end OperatorMarkup
