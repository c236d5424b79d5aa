import Mathlib.Data.List.Forall2
import OperatorMarkup.Proofs.Token.Likeness
import OperatorMarkup.Proofs.Token.Stream

/-!
# Two streams in lockstep

Two texts are read into tokens that look alike in pairs.  Each step of the token
stream then does the same to both: it puts in the same tokens in the same places, makes
the same choices, and fails at the same operators.  Behind the last token of a text
comes nothing but dedents and void operands, so a difference in the last gap has no
effect on the tokens before it.
-/

namespace OperatorMarkup

variable {comparison : Comparison} {lexicon : Lexicon} {source other : Source}
  {first second : Token} {tokens tokens' : List Token}

/-! ## Tokens in pairs -/

/-- Tokens of two texts in pairs, which look alike, behind gaps that are given. -/
inductive Aligned (comparison : Comparison) : String → String → List Token → List Token → Prop
  /-- There are none. -/
  | nil {gap gap' : String} : Aligned comparison gap gap' [] []
  /-- The last two. -/
  | last {gap gap' : String} {first second : Token} (before_eq : first.before = gap)
      (before_eq' : second.before = gap') (trailing : first.Trailing comparison second) :
      Aligned comparison gap gap' [first] [second]
  /-- Two tokens with gaps behind them that agree. -/
  | cons {gap gap' : String} {first second : Token} {rest rest' : List Token}
      (before_eq : first.before = gap) (before_eq' : second.before = gap')
      (alike : first.Alike comparison second) (after : Gap.Agree False first.after second.after)
      (behind : Aligned comparison first.after second.after rest rest') :
      Aligned comparison gap gap' (first :: rest) (second :: rest')

/-- Tokens in pairs, which look alike up to a tail behind which nothing reads the
gaps. -/
inductive Likeness (comparison : Comparison) (tail : Token → Token → Prop) :
    List Token → List Token → Prop
  /-- There are none. -/
  | nil : Likeness comparison tail [] []
  /-- Two tokens that look alike. -/
  | cons {first second : Token} {rest rest' : List Token}
      (alike : first.Alike comparison second) (behind : Likeness comparison tail rest rest') :
      Likeness comparison tail (first :: rest) (second :: rest')
  /-- The tail, of which all but the first are operators behind their operands. -/
  | tail {first second : Token} {rest rest' : List Token} (narrow : comparison.wide = false)
      (related : tail first second) (others : List.Forall₂ tail rest rest')
      (suffixes : ∀ token ∈ rest, token.kind = .operator .suffixOp) :
      Likeness comparison tail (first :: rest) (second :: rest')

theorem Aligned.head {gap gap' : String}
    (aligned : Aligned comparison gap gap' (first :: tokens) (second :: tokens')) :
    first.Twin second ∧ first.lineOperator = second.lineOperator ∧ first.before = gap ∧
      second.before = gap' := by
  cases aligned with
  | last before_eq before_eq' trailing =>
      exact ⟨trailing.toTwin, trailing.lineOperator, before_eq, before_eq'⟩
  | cons before_eq before_eq' alike =>
      exact ⟨alike.toTwin, alike.lineOperator, before_eq, before_eq'⟩

/-- Two errors are of one kind and about tokens that stand for each other. -/
inductive Error.Names (named : Token → Token → Prop) : Error → Error → Prop
  /-- Several operators that stand alone. -/
  | ambiguousNullary {operators operators' : List Token}
      (each : List.Forall₂ named operators operators') :
      Names named (.ambiguousNullary operators) (.ambiguousNullary operators')
  /-- A bracket without its partner. -/
  | unmatched {first second : Token} (related : named first second) :
      Names named first.unmatched second.unmatched

namespace Likeness

variable {tail : Token → Token → Prop} {fillers fillers' : List Token}

theorem append (fill : List.Forall₂ (Token.Alike comparison) fillers fillers')
    (behind : Likeness comparison tail tokens tokens') :
    Likeness comparison tail (fillers ++ tokens) (fillers' ++ tokens') := by
  induction fill with
  | nil => exact behind
  | cons alike _ ih => exact .cons alike ih

end Likeness

/-! ## Indentation -/

namespace Indentation

variable {state state' : State} {next next' : Token}

theorem inserted_alike (alike : first.Alike comparison second) {fixity : Fixity}
    (decided : fixity ≠ .ambiguous) (lexeme : Lexeme) :
    (inserted first fixity lexeme).Alike comparison (inserted second fixity lexeme) :=
  ⟨⟨rfl, rfl, rfl⟩, rfl, alike.after, alike.after,
    fun undecided => absurd (Kind.operator.inj undecided) decided⟩

theorem lineBreakBetween_alike (alike : first.Alike comparison second)
    (lineOperator : next.lineOperator = next'.lineOperator) :
    List.Forall₂ (Token.Alike comparison) (lineBreakBetween first next)
      (lineBreakBetween second next') := by
  rw [lineBreakBetween, lineBreakBetween, ← alike.lineOperator, ← lineOperator]
  split
  · exact .nil
  · exact .cons (inserted_alike alike (by decide) .lineBreak) .nil

theorem replicate_alike (alike : first.Alike comparison second) (count : Nat) :
    List.Forall₂ (Token.Alike comparison)
      (List.replicate count (inserted first .suffixOp .dedent))
      (List.replicate count (inserted second .suffixOp .dedent)) := by
  induction count with
  | zero => exact .nil
  | succ count ih => exact .cons (inserted_alike alike (by decide) .dedent) ih

/-- The same is put into two gaps that agree, and leads to the same levels. -/
theorem cross_alike (alike : state.token.Alike comparison state'.token)
    (after : Gap.Agree False state.token.after state'.token.after)
    (levels : state.levels = state'.levels) (depth : state.depth = state'.depth)
    (lexeme : next.lexeme = next'.lexeme) (lineOperator : next.lineOperator = next'.lineOperator)
    (before_eq : next.before = state.token.after) (before_eq' : next'.before = state'.token.after) :
    (cross state next).1 = (cross state' next').1 ∧
      List.Forall₂ (Token.Alike comparison) (cross state next).2 (cross state' next').2 := by
  have height := after.like.height_pos_iff
  simp only [cross, Token.heightAfter]
  by_cases flat : Gap.height state.token.after = 0
  · have flat' : Gap.height state'.token.after = 0 := by omega
    rw [if_pos flat, if_pos flat']
    exact ⟨levels, .nil⟩
  · have flat' : ¬ Gap.height state'.token.after = 0 := by omega
    have spaceBefore : next.spaceBefore = next'.spaceBefore := by
      change Gap.widthOnLastLine next.before = Gap.widthOnLastLine next'.before
      rw [before_eq, before_eq']
      exact after.lastLine (.inl (Nat.pos_of_ne_zero flat))
    rw [if_neg flat, if_neg flat', ← depth, ← levels, ← lexeme, ← alike.lexeme, ← spaceBefore]
    split
    · refine ⟨rfl, ?_⟩
      split
      · exact .nil
      · exact lineBreakBetween_alike alike lineOperator
    · split
      · exact ⟨rfl, .cons (inserted_alike alike (by decide) .indent) .nil⟩
      · exact ⟨rfl, List.rel_append (replicate_alike alike _)
          (lineBreakBetween_alike alike lineOperator)⟩

/-- A dedent behind the last token of a text is the last but for others. -/
theorem replicate_trailing (narrow : comparison.wide = false) (count : Nat) :
    List.Forall₂ (Token.Trailing comparison)
      (List.replicate count (inserted first .suffixOp .dedent))
      (List.replicate count (inserted second .suffixOp .dedent)) := by
  induction count with
  | zero => exact .nil
  | succ count ih =>
      refine .cons ⟨⟨rfl, rfl, rfl⟩, narrow, rfl, nofun, nofun, fun _ => rfl, nofun, ?_, nofun⟩ ih
      exact ⟨nofun, nofun⟩

theorem written_of_nil {state : Option State} {written : List Token} {ending : Option Error}
    (emits : stage.Emits state [] none written ending) : written = finish state := by
  cases emits with
  | finished finish_eq =>
      cases finish_eq
      rfl
  | unfinished finish_eq => contradiction

theorem written_of_cons {written : List Token} {failure ending : Option Error}
    (emits : stage.Emits (some state) (next :: tokens) failure written ending) :
    ∃ later, written = (cross state next).2 ++ next :: later ∧
      stage.Emits (some ⟨next, (cross state next).1, depthAfter state.depth next⟩) tokens failure
        later ending := by
  cases emits with
  | refused _ _ step_eq => contradiction
  | step step_eq rest =>
      cases step_eq
      exact ⟨_, List.append_assoc _ _ _, rest⟩

/-- From two tokens on that look alike, indentation is made explicit alike. -/
theorem lowers_likeness {gap gap' : String} {written written' : List Token}
    {ending ending' : Option Error}
    (aligned : Aligned comparison gap gap' (state.token :: tokens) (state'.token :: tokens'))
    (levels : state.levels = state'.levels) (depth : state.depth = state'.depth)
    (emits : stage.Emits (some state) tokens none written ending)
    (emits' : stage.Emits (some state') tokens' none written' ending') :
    Likeness comparison (Token.Trailing comparison) (state.token :: written)
      (state'.token :: written') := by
  induction tokens generalizing state state' tokens' gap gap' written written' with
  | nil =>
      cases aligned with
      | last _ _ trailing =>
          rw [written_of_nil emits, written_of_nil emits', finish, finish, ← levels]
          refine .tail trailing.narrow trailing (replicate_trailing trailing.narrow _) ?_
          intro token member
          rw [List.eq_of_mem_replicate member]
          rfl
      | cons _ _ alike _ behind =>
          cases behind
          rw [written_of_nil emits, written_of_nil emits', finish, finish, ← levels]
          have ended : Likeness comparison (Token.Trailing comparison) [] [] := .nil
          simpa using ended.append
            (.cons alike (replicate_alike alike state.levels.enclosing.length))
  | cons next tokens ih =>
      cases aligned with
      | cons _ _ alike after behind =>
          cases tokens' with
          | nil => contradiction
          | cons next' tokens' =>
              obtain ⟨twin, lineOperator, before_eq, before_eq'⟩ := behind.head
              obtain ⟨later, rfl, rest⟩ := written_of_cons emits
              obtain ⟨later', rfl, rest'⟩ := written_of_cons emits'
              obtain ⟨nextLevels, filled⟩ := cross_alike alike after levels depth twin.lexeme
                lineOperator before_eq before_eq'
              have nextDepth : depthAfter state.depth next = depthAfter state'.depth next' := by
                rw [depthAfter, depthAfter, depth, twin.lexeme]
              exact .cons alike (.append filled (ih behind nextLevels nextDepth rest rest'))

/-- The indentation of two texts is made explicit alike, where their first lines are
indented alike. -/
theorem lowered_likeness {gap gap' : String} {written written' : List Token}
    {ending ending' : Option Error} (aligned : Aligned comparison gap gap' tokens tokens')
    (indented : ∀ first ∈ tokens.head?, ∀ second ∈ tokens'.head?,
      first.spaceBefore = second.spaceBefore)
    (emits : stage.Emits none tokens none written ending)
    (emits' : stage.Emits none tokens' none written' ending') :
    Likeness comparison (Token.Trailing comparison) written written' := by
  cases tokens with
  | nil =>
      cases aligned
      rw [written_of_nil emits, written_of_nil emits']
      exact .nil
  | cons first tokens =>
      cases tokens' with
      | nil => contradiction
      | cons second tokens' =>
          have width := indented first rfl second rfl
          cases emits with
          | refused _ _ step_eq => contradiction
          | step step_eq rest =>
              cases emits' with
              | refused _ _ step_eq' => contradiction
              | step step_eq' rest' =>
                  cases step_eq
                  cases step_eq'
                  refine lowers_likeness aligned ?_ ?_ rest rest'
                  · rw [width]
                  · simp only [depthAfter, aligned.head.1.lexeme]

end Indentation

/-! ## Fixities -/

/-- Two tokens look alike, or end their streams. -/
def Token.Similar (comparison : Comparison) (first second : Token) : Prop :=
  first.Alike comparison second ∨ first.Trailing comparison second

namespace FixityChoice

variable {run run' written written' : List Token} {state state' : State}
  {ending ending' : Option Error}

theorem similar_of_alike (alike : List.Forall₂ (Token.Alike comparison) run run') :
    List.Forall₂ (Token.Similar comparison) run run' :=
  alike.imp fun _ _ => .inl

theorem named_of_similar (similar : List.Forall₂ (Token.Similar comparison) run run')
    (undecided : ∀ token ∈ run, token.kind = .operator .ambiguous) :
    List.Forall₂ comparison.named run run' := by
  induction similar with
  | nil => exact .nil
  | cons first _ ih =>
      rw [List.forall_mem_cons] at undecided
      refine .cons ?_ (ih undecided.2)
      rcases first with alike | trailing
      · exact (alike.undecided undecided.1).2
      · exact trailing.named undecided.1

theorem withFixity_alike (alike : List.Forall₂ (Token.Alike comparison) run run') {fixity : Fixity}
    (decided : fixity ≠ .ambiguous) :
    List.Forall₂ (Token.Alike comparison) (run.map (·.withFixity fixity))
      (run'.map (·.withFixity fixity)) := by
  induction alike with
  | nil => exact .nil
  | cons first _ ih =>
      exact .cons (first.withKind fun undecided => decided (Kind.operator.inj undecided)) ih

theorem leaning_ne_ambiguous (size : Nat) (token : Token) : leaning size token ≠ .ambiguous := by
  rw [leaning]
  split <;> nofun

/-- A run of undecided operators is decided as one that looks alike, or both are
refused. -/
theorem resolve_alike (alike : List.Forall₂ (Token.Alike comparison) run run')
    (undecided : ∀ token ∈ run, token.kind = .operator .ambiguous) (due dueAfter : Bool) :
    Except.Related (Error.Names comparison.named) (List.Forall₂ (Token.Alike comparison))
      (resolve comparison.size due dueAfter run) (resolve comparison.size' due dueAfter run') := by
  have named := named_of_similar (similar_of_alike alike) undecided
  induction alike generalizing due with
  | nil => exact .ok .nil
  | @cons first second rest rest' head tail ih =>
      have parts := List.forall_mem_cons.mp undecided
      cases due with
      | true =>
          cases dueAfter with
          | true =>
              cases tail with
              | nil => exact .ok (.cons (head.withKind nofun) .nil)
              | cons next others => exact .error (.ambiguousNullary named)
          | false => exact .ok (withFixity_alike (.cons head tail) (by decide))
      | false =>
          cases dueAfter with
          | true => exact .ok (withFixity_alike (.cons head tail) (by decide))
          | false =>
              have leans : leaning comparison.size first = leaning comparison.size' second := by
                rw [leaning, leaning, (head.undecided parts.1).1]
              cases named with
              | cons _ named =>
                  rw [resolve, resolve, ← leans]
                  apply (ih parts.2 _ named).map
                  intro others others' related
                  exact .cons (head.withKind fun ambiguous =>
                    leaning_ne_ambiguous _ _ (Kind.operator.inj ambiguous)) related

theorem chosen_of_similar (similar : first.Similar comparison second)
    (undecided : first.kind = .operator .ambiguous) {kind : Kind}
    (leaning : kind = .nullary ∨ kind = .operator .suffixOp) :
    (first.withKind kind).Interchangeable comparison lexicon (second.withKind kind) := by
  rcases similar with alike | trailing
  · refine (alike.withKind ?_).interchangeable
    rcases leaning with rfl | rfl <;> nofun
  · exact trailing.chosen (trailing.undecided.mp undecided) leaning

/-- Tokens behind which nothing reads the gaps any more: all but the first are operators
behind their operands, and so is the first where that is said. -/
structure Settled (comparison : Comparison) (lexicon : Lexicon) (all : Prop)
    (written written' : List Token) : Prop where
  related : List.Forall₂ (Token.Interchangeable comparison lexicon) written written'
  suffixes : ∀ token ∈ written.tail, token.kind = .operator .suffixOp
  first : all → ∀ token ∈ written, token.kind = .operator .suffixOp

namespace Settled

variable {all : Prop} {later later' : List Token}

theorem nil : Settled comparison lexicon all [] [] :=
  ⟨.nil, nofun, nofun⟩

theorem append (now : Settled comparison lexicon all written written')
    (behind : Settled comparison lexicon True later later') :
    Settled comparison lexicon all (written ++ later) (written' ++ later') := by
  have others := behind.first trivial
  refine ⟨List.rel_append now.related behind.related, ?_, ?_⟩
  · intro token member
    cases written with
    | nil => exact others token (List.mem_of_mem_tail member)
    | cons head written =>
        exact (List.mem_append.mp member).elim (now.suffixes token) (others token)
  · intro fromStart token member
    exact (List.mem_append.mp member).elim (now.first fromStart token) (others token)

theorem singleton (related : first.Interchangeable comparison lexicon second)
    (suffix : first.kind = .operator .suffixOp) :
    Settled comparison lexicon True [first] [second] :=
  ⟨.cons related .nil, nofun, fun _ => by simpa using suffix⟩

/-- What is settled is the tail of a stream. -/
theorem likeness (settled : Settled comparison lexicon all written written')
    (narrow : comparison.wide = false) :
    Likeness comparison (Token.Interchangeable comparison lexicon) written written' := by
  obtain ⟨related, suffixes, -⟩ := settled
  cases related with
  | nil => exact .nil
  | cons head others => exact .tail narrow head others suffixes

end Settled

/-- Where an operand is due behind it, a run is decided whatever the gap behind it. -/
theorem resolve_similar (similar : List.Forall₂ (Token.Similar comparison) run run')
    (undecided : ∀ token ∈ run, token.kind = .operator .ambiguous) (due : Bool) :
    Except.Related (Error.Names comparison.named) (Settled comparison lexicon (run = []))
      (resolve comparison.size due true run) (resolve comparison.size' due true run') := by
  have named := named_of_similar similar undecided
  have suffixed : List.Forall₂ (Token.Interchangeable comparison lexicon)
      (run.map (·.withFixity .suffixOp)) (run'.map (·.withFixity .suffixOp)) := by
    clear named
    induction similar with
    | nil => exact .nil
    | cons first _ ih =>
        rw [List.forall_mem_cons] at undecided
        exact .cons (chosen_of_similar first undecided.1 (.inr rfl)) (ih undecided.2)
  cases similar with
  | nil => exact .ok .nil
  | cons head tail =>
      rw [List.forall_mem_cons] at undecided
      cases due with
      | true =>
          cases tail with
          | nil =>
              exact .ok ⟨.cons (chosen_of_similar head undecided.1 (.inl rfl)) .nil, nofun, nofun⟩
          | cons next others => exact .error (.ambiguousNullary named)
      | false =>
          refine .ok ⟨suffixed, fun token member => ?_, nofun⟩
          obtain ⟨read, _, rfl⟩ := List.mem_map.mp (List.mem_of_mem_tail member)
          rfl

/-! ### Two runs of the stage -/

/-- Two states with undecided operators that are related, and in which operands are due
alike. -/
structure StateRelated (related : Token → Token → Prop) (state state' : State) : Prop where
  runs : List.Forall₂ related state.run state'.run
  undecided : ∀ token ∈ state.run, token.kind = .operator .ambiguous
  due : state.due = state'.due

theorem StateRelated.decided {related : Token → Token → Prop} {due due' : Bool}
    (same : due = due') : StateRelated related ⟨[], due⟩ ⟨[], due'⟩ :=
  ⟨.nil, nofun, same⟩

theorem StateRelated.push {related : Token → Token → Prop}
    (states : StateRelated related state state') (pair : related first second)
    (ambiguous : first.kind = .operator .ambiguous) :
    StateRelated related ⟨first :: state.run, state.due⟩ ⟨second :: state'.run, state'.due⟩ :=
  ⟨.cons pair states.runs, List.forall_mem_cons.mpr ⟨ambiguous, states.undecided⟩, states.due⟩

theorem StateRelated.resolve_settled
    (states : StateRelated (Token.Similar comparison) state state') :
    Except.Related (Error.Names comparison.named) (Settled comparison lexicon (state.run = []))
      (resolve comparison.size state.due true state.run.reverse)
      (resolve comparison.size' state'.due true state'.run.reverse) := by
  have resolves := @resolve_similar comparison lexicon _ _ (List.rel_reverse states.runs)
    (by simpa using states.undecided) state.due
  rw [List.reverse_eq_nil_iff] at resolves
  rwa [← states.due]

/-- From the end of a text on, whatever the last gap, fixities are chosen alike. -/
theorem decides_settled (states : StateRelated (Token.Similar comparison) state state')
    (trailing : List.Forall₂ (Token.Trailing comparison) tokens tokens')
    (suffixes : ∀ token ∈ tokens, token.kind = .operator .suffixOp)
    (emits : (stage comparison.size).Emits state tokens none written ending)
    (emits' : (stage comparison.size').Emits state' tokens' none written' ending') :
    Settled comparison lexicon (state.run = []) written written' ∧
      Option.Rel (Error.Names comparison.named) ending ending' := by
  induction trailing generalizing state state' written written' with
  | nil => exact emits.nil_related .nil states.resolve_settled emits'
  | @cons first second tokens tokens' head tail ih =>
      rw [List.forall_mem_cons] at suffixes
      have suffix' : second.kind = .operator .suffixOp := head.kind.symm.trans suffixes.1
      have decided : first.kind ≠ .operator .ambiguous := by rw [suffixes.1]; nofun
      have decided' : second.kind ≠ .operator .ambiguous := by rw [suffix']; nofun
      have paired : first.Interchangeable comparison lexicon second :=
        head.interchangeable (mt head.undecided.mpr decided)
      have steps : Except.Related (Error.Names comparison.named)
          (fun result result' => StateRelated (Token.Similar comparison) result.1 result'.1 ∧
            result.1.run = [] ∧
            Settled comparison lexicon (state.run = []) result.2 result'.2)
          ((stage comparison.size).step state first)
          ((stage comparison.size').step state' second) := by
        rw [step_of_decided _ _ decided, step_of_decided _ _ decided', suffixes.1, suffix']
        exact states.resolve_settled.map fun _ _ now =>
          ⟨.decided rfl, rfl, now.append (.singleton paired suffixes.1)⟩
      rcases emits.cons_related steps emits' with
        ⟨reached, now, later, reached', now', later', ⟨next, none_eq, settled⟩, rfl, rfl, rest,
          rest'⟩ | ⟨rfl, rfl, ends⟩
      · obtain ⟨behind, ends⟩ := ih next suffixes.2 rest rest'
        refine ⟨settled.append ?_, ends⟩
        rwa [none_eq, eq_self] at behind
      · exact ⟨.nil, ends⟩

theorem StateRelated.resolve_alike (states : StateRelated (Token.Alike comparison) state state')
    (dueAfter : Bool) :
    Except.Related (Error.Names comparison.named) (List.Forall₂ (Token.Alike comparison))
      (resolve comparison.size state.due dueAfter state.run.reverse)
      (resolve comparison.size' state'.due dueAfter state'.run.reverse) := by
  rw [← states.due]
  exact FixityChoice.resolve_alike (List.rel_reverse states.runs)
    (by simpa using states.undecided) state.due dueAfter

/-- Two tokens that look alike are read alike. -/
theorem step_alike (states : StateRelated (Token.Alike comparison) state state')
    (alike : first.Alike comparison second) :
    Except.Related (Error.Names comparison.named)
      (fun result result' => StateRelated (Token.Alike comparison) result.1 result'.1 ∧
        List.Forall₂ (Token.Alike comparison) result.2 result'.2)
      ((stage comparison.size).step state first)
      ((stage comparison.size').step state' second) := by
  by_cases ambiguous : first.kind = .operator .ambiguous
  · rw [step_of_ambiguous _ _ ambiguous, step_of_ambiguous _ _ (alike.kind ▸ ambiguous)]
    exact .ok ⟨states.push alike ambiguous, .nil⟩
  · rw [step_of_decided _ _ ambiguous, step_of_decided _ _ (alike.kind ▸ ambiguous), ← alike.kind]
    exact (states.resolve_alike _).map fun _ _ now =>
      ⟨.decided rfl, List.rel_append now (.cons alike .nil)⟩

/-- Two tokens that end their texts are read so that what follows settles the stream. -/
theorem step_trailing (lexicon : Lexicon)
    (states : StateRelated (Token.Alike comparison) state state')
    (trailing : first.Trailing comparison second) :
    Except.Related (Error.Names comparison.named)
      (fun result result' => StateRelated (Token.Similar comparison) result.1 result'.1 ∧
        ∀ later later', Settled comparison lexicon (result.1.run = []) later later' →
          Likeness comparison (Token.Interchangeable comparison lexicon) (result.2 ++ later)
            (result'.2 ++ later'))
      ((stage comparison.size).step state first)
      ((stage comparison.size').step state' second) := by
  by_cases ambiguous : first.kind = .operator .ambiguous
  · rw [step_of_ambiguous _ _ ambiguous, step_of_ambiguous _ _ (trailing.kind ▸ ambiguous)]
    have similar : StateRelated (Token.Similar comparison) state state' :=
      ⟨similar_of_alike states.runs, states.undecided, states.due⟩
    exact .ok ⟨similar.push (.inr trailing) ambiguous,
      fun _ _ settled => settled.likeness trailing.narrow⟩
  · rw [step_of_decided _ _ ambiguous, step_of_decided _ _ (trailing.kind ▸ ambiguous),
      ← trailing.kind]
    have paired : first.Interchangeable comparison lexicon second :=
      trailing.interchangeable (mt trailing.undecided.mpr ambiguous)
    refine (states.resolve_alike _).map fun now now' alike => ⟨.decided rfl, ?_⟩
    intro later later' settled
    rw [List.append_assoc, List.append_assoc]
    exact .append alike (.tail trailing.narrow paired settled.related (settled.first rfl))

/-- Fixities are chosen alike in two streams that look alike up to their last gaps. -/
theorem decides_likeness (lexicon : Lexicon)
    (states : StateRelated (Token.Alike comparison) state state')
    (likeness : Likeness comparison (Token.Trailing comparison) tokens tokens')
    (emits : (stage comparison.size).Emits state tokens none written ending)
    (emits' : (stage comparison.size').Emits state' tokens' none written' ending') :
    Likeness comparison (Token.Interchangeable comparison lexicon) written written' ∧
      Option.Rel (Error.Names comparison.named) ending ending' := by
  induction likeness generalizing state state' written written' with
  | nil =>
      obtain ⟨alike, ends⟩ := emits.nil_related .nil (states.resolve_alike true) emits'
      rw [← List.append_nil written, ← List.append_nil written']
      exact ⟨.append alike .nil, ends⟩
  | cons alike _ ih =>
      rcases emits.cons_related (step_alike states alike) emits' with
        ⟨_, _, _, _, _, _, ⟨next, now⟩, rfl, rfl, rest, rest'⟩ | ⟨rfl, rfl, ends⟩
      · obtain ⟨later, ends⟩ := ih next rest rest'
        exact ⟨.append now later, ends⟩
      · exact ⟨.nil, ends⟩
  | tail narrow trailing others suffixes =>
      -- The run that is open here is decided by what follows, and by no gap behind it.
      rcases emits.cons_related (step_trailing lexicon states trailing) emits' with
        ⟨_, _, _, _, _, _, ⟨next, now⟩, rfl, rfl, rest, rest'⟩ | ⟨rfl, rfl, ends⟩
      · obtain ⟨settled, ends⟩ := decides_settled next others suffixes rest rest'
        exact ⟨now _ _ settled, ends⟩
      · exact ⟨.nil, ends⟩

end FixityChoice

/-! ## Alternation -/

namespace Alternation

variable {state state' : State} {written written' : List Token}
  {failure failure' ending ending' : Option Error} {names : Error → Error → Prop}

theorem written_of_cons (emits : stage.Emits state (first :: tokens) failure written ending) :
    ∃ later, written = state.fill first.kind.role ++ first :: later ∧
      stage.Emits (.after first) tokens failure later ending := by
  cases emits with
  | refused _ _ step_eq => contradiction
  | step step_eq rest =>
      cases step_eq
      exact ⟨_, List.append_assoc _ _ _, rest⟩

/-- Operands that are put in fill in alike, whatever the gap. -/
theorem token_void_related (narrow : comparison.wide = false) (state state' : State) :
    (state.token .void).Interchangeable comparison lexicon (state'.token .void) := by
  refine ⟨⟨rfl, rfl, rfl⟩, fun _ operator => ?_, rfl, rfl, nofun, fun wide => ?_⟩
  · exact nomatch operator
  · rw [narrow] at wide
    contradiction

/-- Only operands are put in before an operator that has its operand before it, and at
the end. -/
theorem fill_settled (narrow : comparison.wide = false) (roles : state.role = state'.role)
    {role : Role} (settled : role = .behind ∨ role = .between) :
    List.Forall₂ (Token.Interchangeable comparison lexicon) (state.fill role)
      (state'.fill role) := by
  have void := @token_void_related comparison lexicon narrow state state'
  rw [State.fill, State.fill, ← roles]
  rcases settled with rfl | rfl <;> cases state.role <;>
    first | exact .nil | exact .cons void .nil

theorem fill_alike (gaps : Gap.Like state.gap state'.gap) (roles : state.role = state'.role)
    (role : Role) :
    List.Forall₂ (Token.Interchangeable comparison lexicon) (state.fill role)
      (state'.fill role) := by
  rw [State.fill, State.fill, ← roles]
  induction fillers state.role role with
  | nil => exact .nil
  | cons filler fillers ih =>
      have alike : (state.token filler).Alike comparison (state'.token filler) := by
        cases filler with
        | void | juxtaposition =>
            refine ⟨⟨rfl, rfl, rfl⟩, rfl, gaps, gaps, fun undecided => ?_⟩
            cases undecided
      exact .cons alike.interchangeable ih

theorem after_role (twin : first.Twin second) :
    (State.after first).role = (State.after second).role :=
  congrArg Kind.role twin.kind

/-- From the end of a text on, the same is put in, whatever the last gap. -/
theorem alternates_settled (narrow : comparison.wide = false) (roles : state.role = state'.role)
    (related : List.Forall₂ (Token.Interchangeable comparison lexicon) tokens tokens')
    (suffixes : ∀ token ∈ tokens, token.kind = .operator .suffixOp)
    (failures : Option.Rel names failure failure')
    (emits : stage.Emits state tokens failure written ending)
    (emits' : stage.Emits state' tokens' failure' written' ending') :
    List.Forall₂ (Token.Interchangeable comparison lexicon) written written' := by
  induction related generalizing state state' written written' with
  | nil =>
      cases failures with
      | none =>
          have finishes : Except.Related names
              (List.Forall₂ (Token.Interchangeable comparison lexicon)) (stage.finish state)
              (stage.finish state') := .ok (fill_settled narrow roles (.inr rfl))
          exact (emits.nil_related .nil finishes emits').1
      | some _ =>
          cases emits
          cases emits'
          exact .nil
  | @cons first second tokens tokens' head tail ih =>
      rw [List.forall_mem_cons] at suffixes
      obtain ⟨later, rfl, rest⟩ := written_of_cons emits
      obtain ⟨later', rfl, rest'⟩ := written_of_cons emits'
      have role_eq : first.kind.role = .behind := by rw [suffixes.1]; rfl
      rw [← head.kind, role_eq]
      exact List.rel_append (fill_settled narrow roles (.inl rfl))
        (.cons head (ih (after_role head.toTwin) suffixes.2 rest rest'))

/-- The same is put into two streams that look alike up to their last gaps. -/
theorem alternates_likeness (gaps : Gap.Like state.gap state'.gap)
    (roles : state.role = state'.role)
    (likeness : Likeness comparison (Token.Interchangeable comparison lexicon) tokens tokens')
    (failures : Option.Rel names failure failure')
    (emits : stage.Emits state tokens failure written ending)
    (emits' : stage.Emits state' tokens' failure' written' ending') :
    List.Forall₂ (Token.Interchangeable comparison lexicon) written written' := by
  induction likeness generalizing state state' written written' with
  | nil =>
      cases failures with
      | none =>
          have finishes : Except.Related names
              (List.Forall₂ (Token.Interchangeable comparison lexicon)) (stage.finish state)
              (stage.finish state') := .ok (fill_alike gaps roles .between)
          exact (emits.nil_related .nil finishes emits').1
      | some _ =>
          cases emits
          cases emits'
          exact .nil
  | cons alike _ ih =>
      obtain ⟨later, rfl, rest⟩ := written_of_cons emits
      obtain ⟨later', rfl, rest'⟩ := written_of_cons emits'
      rw [← alike.kind]
      exact List.rel_append (fill_alike gaps roles _)
        (.cons alike.interchangeable (ih alike.after (after_role alike.toTwin) rest rest'))
  | tail narrow head others suffixes =>
      obtain ⟨later, rfl, rest⟩ := written_of_cons emits
      obtain ⟨later', rfl, rest'⟩ := written_of_cons emits'
      rw [← head.kind]
      have behind := alternates_settled narrow (after_role head.toTwin) others suffixes failures
        rest rest'
      exact List.rel_append (fill_alike gaps roles _) (.cons head behind)

end Alternation

/-! ## Extents -/

theorem Token.Interchangeable.withSpan
    (related : first.Interchangeable comparison lexicon second) (span span' : Span) :
    (first.withSpan span).Interchangeable comparison lexicon (second.withSpan span') :=
  ⟨⟨related.kind, related.lexeme, related.text⟩, related.faces, related.isLineLevel,
    related.isLineBreak, related.blank, related.spaced⟩

namespace Extent

theorem adjustTokens_related {failure failure' : Option Error}
    (related : List.Forall₂ (Token.Interchangeable comparison lexicon) tokens tokens')
    (size size' previous previous' : Nat) :
    List.Forall₂ (Token.Interchangeable comparison lexicon)
      (adjustTokens size previous failure tokens)
      (adjustTokens size' previous' failure' tokens') := by
  induction related generalizing previous previous' with
  | nil => exact .nil
  | @cons first second tokens tokens' head _ ih =>
      refine .cons ?_ (ih _ _)
      rw [adjust, adjust, ← head.isOperand]
      split
      · exact head.withSpan _ _
      · exact head

end Extent

end OperatorMarkup
