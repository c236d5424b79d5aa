import OperatorMarkup.Proofs.Source
import OperatorMarkup.Proofs.Stage
import OperatorMarkup.Proofs.Token.Fit

/-!
# Where tokens lie

The tokens that were read from a text lie one behind the other with whitespace
between them, from the start of the text to its end.  Those that were put in lie
at the start of a gap and cover nothing, so a stage may put in as many as it
likes there.
-/

namespace OperatorMarkup

/-- Every character of a text is whitespace of a lexicon. -/
def Lexicon.Blank (lexicon : Lexicon) (text : String) : Prop :=
  ∀ c ∈ text.toList, lexicon.isWhitespace c = true

instance (lexicon : Lexicon) (text : String) : Decidable (lexicon.Blank text) :=
  List.decidableBAll (fun c => lexicon.isWhitespace c = true) text.toList

/-- Tokens lie one behind the other from an offset on, of which the given gap
comes next. -/
inductive Placed (lexicon : Lexicon) (source : Source) : Nat → String → List Token → Prop
  /-- The gap reaches to the end of the text. -/
  | nil {offset : Nat} {gap : String} (holds : source.Holds offset gap)
      (blank : lexicon.Blank gap) (size_eq : source.size = offset + gap.utf8ByteSize) :
      Placed lexicon source offset gap []
  /-- A token was put in at the start of the gap. -/
  | inserted {offset : Nat} {gap : String} {token : Token} {tokens : List Token}
      (synthetic : token.lexeme.isSynthetic = true) (span_eq : token.span = .point offset)
      (rest : Placed lexicon source offset gap tokens) :
      Placed lexicon source offset gap (token :: tokens)
  /-- A token was read behind the gap. -/
  | written {offset : Nat} {gap : String} {token : Token} {tokens : List Token}
      (written : token.lexeme.isSynthetic = false) (holds : source.Holds offset gap)
      (blank : lexicon.Blank gap) (before_eq : token.before = gap)
      (start_eq : token.span.start = offset + gap.utf8ByteSize)
      (covers : source.Covers token.span token.text)
      (rest : Placed lexicon source token.span.stop token.after tokens) :
      Placed lexicon source offset gap (token :: tokens)

/-- A token that was read covers some of a source. -/
def Token.Seated (source : Source) (token : Token) : Prop :=
  token.lexeme.isSynthetic = false →
    token.span.start < token.span.stop ∧ token.span.stop ≤ source.size

/-- A token is what its lexeme says, and covers some of a source where it was
read. -/
structure Token.Sound (lexicon : Lexicon) (source : Source) (token : Token) : Prop where
  fits : token.Fits lexicon
  seated : token.Seated source

variable {lexicon : Lexicon} {source : Source} {offset : Nat} {gap : String}
  {token : Token} {tokens : List Token}

theorem Token.seated_of_covers (fits : token.Fits lexicon)
    (covers : source.Covers token.span token.text) : token.Seated source := by
  intro written
  have nonempty := fits.text_ne_empty written
  have stop_eq := covers.stop_eq
  rw [utf8ByteSize_eq_byteCount] at stop_eq
  have some : byteCount token.text.toList ≠ 0 := fun none =>
    nonempty ((byteCount_eq_zero_iff _).mp none)
  exact ⟨by omega, covers.stop_le_size⟩

/-- A token without text is sound where its lexeme allows its kind. -/
theorem Token.synthetic_sound {kind : Kind} {lexeme : Lexeme} (gap : String) (offset : Nat)
    (synthetic : lexeme.isSynthetic = true) (allowed : lexeme.Allows kind) :
    (Token.synthetic kind lexeme gap offset).Sound lexicon source := by
  constructor
  · refine ⟨allowed, ?_, fun line => absurd line Bool.false_ne_true⟩
    cases lexeme <;> first | rfl | contradiction
  · intro written
    rw [Token.synthetic, synthetic] at written
    contradiction

namespace Placed

/-- Tokens may be put in at the start of a gap. -/
theorem insert {fillers : List Token}
    (atOffset : ∀ filler ∈ fillers, filler.lexeme.isSynthetic = true ∧ filler.span = .point offset)
    (rest : Placed lexicon source offset gap tokens) :
    Placed lexicon source offset gap (fillers ++ tokens) := by
  induction fillers with
  | nil => exact rest
  | cons filler fillers ih =>
      rw [List.forall_mem_cons] at atOffset
      exact .inserted atOffset.1.1 atOffset.1.2 (ih atOffset.2)

end Placed

/-- A stage writes each token that it reads behind some that it puts in at the end
of the token before, which is at an offset that the state tells. -/
structure Stage.Inserts {σ : Type} (stage : Stage σ) (offsetOf : σ → Nat) : Prop where
  step_eq : ∀ state token, ∃ next fillers,
    stage.step state token = .ok (next, fillers ++ [token]) ∧
      offsetOf next = token.span.stop ∧
      ∀ filler ∈ fillers, filler.lexeme.isSynthetic = true ∧
        filler.span = .point (offsetOf state)
  finish_eq : ∀ state, ∃ fillers, stage.finish state = .ok fillers ∧
    ∀ filler ∈ fillers, filler.lexeme.isSynthetic = true ∧
      filler.span = .point (offsetOf state)

namespace Stage.Inserts

variable {σ : Type} {stage : Stage σ} {offsetOf : σ → Nat} {state : σ} {written : List Token}
  {failure ending : Option Error}

/-- A stage that only puts tokens in passes an error on, and has none of its
own. -/
theorem ending_eq (inserts : stage.Inserts offsetOf)
    (emits : stage.Emits state tokens failure written ending) : ending = failure := by
  induction emits with
  | finished | failed => rfl
  | @unfinished state error finish_eq =>
      obtain ⟨fillers, ok_eq, _⟩ := inserts.finish_eq state
      rw [ok_eq] at finish_eq
      contradiction
  | @refused state token error _ _ step_eq =>
      obtain ⟨next, fillers, ok_eq, _⟩ := inserts.step_eq state token
      rw [ok_eq] at step_eq
      contradiction
  | step _ _ ih => exact ih

/-- Tokens still lie one behind the other with others put in. -/
theorem placed (inserts : stage.Inserts offsetOf)
    (emits : stage.Emits state tokens none written ending)
    (placed : Placed lexicon source (offsetOf state) gap tokens) :
    Placed lexicon source (offsetOf state) gap written := by
  generalize failure_eq : (none : Option Error) = failure at emits
  induction emits generalizing gap with
  | @finished state last finish_eq =>
      obtain ⟨fillers, ok_eq, atOffset⟩ := inserts.finish_eq state
      rw [ok_eq] at finish_eq
      obtain rfl := Except.ok.inj finish_eq
      rw [← List.append_nil fillers]
      exact .insert atOffset placed
  | @unfinished state error finish_eq =>
      obtain ⟨fillers, ok_eq, _⟩ := inserts.finish_eq state
      rw [ok_eq] at finish_eq
      contradiction
  | failed => contradiction
  | @refused state token error _ _ step_eq =>
      obtain ⟨next, fillers, ok_eq, _⟩ := inserts.step_eq state token
      rw [ok_eq] at step_eq
      contradiction
  | @step state next token tokens now later failure ending step_eq rest ih =>
      obtain ⟨next, fillers, ok_eq, offset_eq, atOffset⟩ := inserts.step_eq state token
      rw [ok_eq] at step_eq
      cases step_eq
      rw [List.append_assoc]
      apply Placed.insert atOffset
      cases placed with
      | inserted synthetic span_eq placedRest =>
          refine .inserted synthetic span_eq ?_
          have stay : offsetOf next = offsetOf state := by rw [offset_eq, span_eq]; rfl
          rw [← stay] at placedRest ⊢
          exact ih placedRest failure_eq
      | written written holds blank before_eq start_eq covers placedRest =>
          refine .written written holds blank before_eq start_eq covers ?_
          rw [← offset_eq] at placedRest ⊢
          exact ih placedRest failure_eq

/-- What holds of where tokens start and stop holds so of those that are put in. -/
theorem ends (inserts : stage.Inserts offsetOf)
    (emits : stage.Emits state tokens failure written ending) {edge : Nat → Prop}
    (here : edge (offsetOf state))
    (each : ∀ token ∈ tokens, edge token.span.start ∧ edge token.span.stop) :
    ∀ token ∈ written, edge token.span.start ∧ edge token.span.stop := by
  have filled : ∀ {fillers : List Token} {offset : Nat}, edge offset →
      (∀ filler ∈ fillers, filler.lexeme.isSynthetic = true ∧ filler.span = .point offset) →
        ∀ filler ∈ fillers, edge filler.span.start ∧ edge filler.span.stop := by
    intro fillers offset here atOffset filler member
    rw [(atOffset filler member).2]
    exact ⟨here, here⟩
  induction emits with
  | @finished state last finish_eq =>
      obtain ⟨fillers, ok_eq, atOffset⟩ := inserts.finish_eq state
      rw [ok_eq] at finish_eq
      obtain rfl := Except.ok.inj finish_eq
      exact filled here atOffset
  | unfinished | failed | refused => simp
  | @step state next token tokens now later failure ending step_eq rest ih =>
      obtain ⟨next, fillers, ok_eq, offset_eq, atOffset⟩ := inserts.step_eq state token
      rw [ok_eq] at step_eq
      cases step_eq
      rw [List.forall_mem_cons] at each
      rw [List.append_assoc, List.forall_mem_append, List.singleton_append, List.forall_mem_cons]
      exact ⟨filled here atOffset, each.1, ih (offset_eq ▸ each.1.2) each.2⟩

end Stage.Inserts

end OperatorMarkup
