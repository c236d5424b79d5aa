import OperatorMarkup.Proofs.Token.FixityChoice

/-!
# Runs of operators

The operators of a run are decided together.  An operand may have to start before the run,
as behind an operator that waits for one, and one may have to end behind it.  Where both is
so, a single operator stands for the operand between, and several are refused.
-/

namespace OperatorMarkup

namespace FixityChoice

/-- The last token of a list is not undecided. -/
def EndsDecided (tokens : List Token) : Prop :=
  ∀ last ∈ tokens.getLast?, last.kind ≠ .operator .ambiguous

/-- The first token of a list is not undecided. -/
def StartsDecided (tokens : List Token) : Prop :=
  ∀ next ∈ tokens.head?, next.kind ≠ .operator .ambiguous

/-- Undecided operators that stand one behind the other, with none on either side. -/
structure IsRun (tokens front run back : List Token) : Prop where
  split_eq : tokens = front ++ (run ++ back)
  nonempty : run ≠ []
  undecided : ∀ token ∈ run, token.kind = .operator .ambiguous
  front_decided : EndsDecided front
  back_decided : StartsDecided back

/-- An operand has to start behind some tokens: they are none, or the last is an operator
that waits for one. -/
def PrefixContext (front : List Token) : Prop :=
  ∀ last ∈ front.getLast?, last.kind = .operator .prefixOp ∨ last.kind = .operator .infixOp

/-- An operand has to end before some tokens: they are none, or the first is an operator
that needs one. -/
def SuffixContext (back : List Token) : Prop :=
  ∀ next ∈ back.head?, next.kind = .operator .infixOp ∨ next.kind = .operator .suffixOp

/-- Several operators stand where a single operand has to. -/
structure Crowded (front run back : List Token) : Prop where
  several : 2 ≤ run.length
  starts : PrefixContext front
  ends : SuffixContext back

/-- There is space before an operator: where it has its line to itself, a blank line or the
start of the text, and elsewhere a column of the gap on its own line. -/
def SpaceBefore (token : Token) : Prop :=
  if token.lineOperator then
    2 ≤ Gap.height token.before ∨ token.span.start = token.before.utf8ByteSize
  else 0 < Gap.widthOnLastLine token.before

/-- There is space behind an operator of a text of the given size: where it has its line to
itself, a blank line or the end of the text, and elsewhere a column of the gap on its own line. -/
def SpaceBehind (textSize : Nat) (token : Token) : Prop :=
  if token.lineOperator then
    2 ≤ Gap.height token.after ∨ token.span.stop + token.after.utf8ByteSize = textSize
  else 0 < Gap.widthOnFirstLine token.after

/-- The kinds that the operators of a run are given, where an operand has to start before it
or has to end behind it, or not. -/
inductive Resolves (textSize : Nat) (starts ends : Prop) : List Token → List Token → Prop
  /-- A single operator stands for the operand. -/
  | alone (token : Token) (start : starts) (stop : ends) :
      Resolves textSize starts ends [token] [token.withKind .nullary]
  /-- All operators lead an operand behind the run. -/
  | leading (run : List Token) (start : starts) (noStop : ¬ ends) :
      Resolves textSize starts ends run (run.map (·.withFixity .prefixOp))
  /-- All operators trail an operand before the run. -/
  | trailing (run : List Token) (noStart : ¬ starts) (stop : ends) :
      Resolves textSize starts ends run (run.map (·.withFixity .suffixOp))
  /-- Between operands, all operators have space behind them alone. -/
  | leaning (run : List Token) (noStart : ¬ starts) (noStop : ¬ ends)
      (leans : ∀ token ∈ run, ¬ SpaceBefore token ∧ SpaceBehind textSize token) :
      Resolves textSize starts ends run (run.map (·.withFixity .suffixOp))
  /-- Between operands, the first operator that does not have space behind it alone leads or
  joins what follows, and all behind it lead. -/
  | parted (front : List Token) (token : Token) (back : List Token) (fixity : Fixity)
      (noStart : ¬ starts) (noStop : ¬ ends)
      (leans : ∀ other ∈ front, ¬ SpaceBefore other ∧ SpaceBehind textSize other)
      (turns : (SpaceBefore token ∧ ¬ SpaceBehind textSize token) ∧ fixity = .prefixOp ∨
        (SpaceBefore token ↔ SpaceBehind textSize token) ∧ fixity = .infixOp) :
      Resolves textSize starts ends (front ++ token :: back)
        (front.map (·.withFixity .suffixOp) ++
          token.withFixity fixity :: back.map (·.withFixity .prefixOp))

/-- A token is given a kind, which is its own where it has one. -/
structure Assigns (token other : Token) : Prop where
  decided : other.kind ≠ .operator .ambiguous
  same : other = token.withKind other.kind
  kept : token.kind ≠ .operator .ambiguous → other = token

/-- Tokens with all kinds decided, run by run. -/
structure Settles (textSize : Nat) (tokens written : List Token) : Prop where
  each : List.Forall₂ Assigns tokens written
  runs : ∀ front run back, IsRun tokens front run back →
    ∃ before chosen behind, written = before ++ (chosen ++ behind) ∧
      before.length = front.length ∧
      Resolves textSize (PrefixContext front) (SuffixContext back) run chosen

variable {textSize : Nat} {front run back tokens written chosen done rest : List Token}
  {token : Token} {starts ends : Prop}

/-! ## Contexts -/

theorem prefixContext_nil : PrefixContext [] :=
  fun last member => absurd member (Option.not_mem_none last)

theorem suffixContext_nil : SuffixContext [] :=
  fun last member => absurd member (Option.not_mem_none last)

theorem PrefixContext.endsDecided (context : PrefixContext front) : EndsDecided front := by
  intro last member ambiguous
  rcases context last member with kind_eq | kind_eq <;> rw [kind_eq] at ambiguous <;> contradiction

theorem SuffixContext.startsDecided (context : SuffixContext back) : StartsDecided back := by
  intro next member ambiguous
  rcases context next member with kind_eq | kind_eq <;> rw [kind_eq] at ambiguous <;> contradiction

theorem endsDecided_nil : EndsDecided [] :=
  prefixContext_nil.endsDecided

theorem startsDecided_nil : StartsDecided [] :=
  suffixContext_nil.startsDecided

theorem prefixContext_concat (decided : token.kind ≠ .operator .ambiguous) (front : List Token) :
    PrefixContext (front ++ [token]) ↔ token.kind.needsOperandAfter = true := by
  simp only [PrefixContext, List.getLast?_concat, Option.mem_def, Option.some.injEq,
    forall_eq']
  cases kind_eq : token.kind with
  | identifier | nullary | void => simp [Kind.needsOperandAfter]
  | operator fixity =>
      cases fixity with
      | ambiguous => exact absurd kind_eq decided
      | prefixOp | infixOp | suffixOp => simp [Kind.needsOperandAfter]

theorem suffixContext_cons (token : Token) (back : List Token) :
    SuffixContext (token :: back) ↔ token.kind.needsOperandBefore = true := by
  simp only [SuffixContext, List.head?_cons, Option.mem_def, Option.some.injEq, forall_eq']
  cases kind_eq : token.kind with
  | identifier | nullary | void => simp [Kind.needsOperandBefore]
  | operator fixity => cases fixity <;> simp [Kind.needsOperandBefore]

/-! ## Resolving a run -/

theorem Assigns.withKind {kind : Kind} (undecided : token.kind = .operator .ambiguous)
    (decided : kind ≠ .operator .ambiguous) : Assigns token (token.withKind kind) :=
  ⟨decided, rfl, fun keeps => absurd undecided keeps⟩

theorem Assigns.refl (decided : token.kind ≠ .operator .ambiguous) : Assigns token token :=
  ⟨decided, rfl, fun _ => rfl⟩

theorem assigns_map (fixity : Fixity) (decided : fixity ≠ .ambiguous)
    (undecided : ∀ token ∈ run, token.kind = .operator .ambiguous) :
    List.Forall₂ Assigns run (run.map (·.withFixity fixity)) := by
  rw [List.forall₂_map_right_iff, List.forall₂_same]
  exact fun token member => .withKind (undecided token member) (decided ∘ Kind.operator.inj)

namespace Resolves

theorem length_eq (resolves : Resolves textSize starts ends run chosen) :
    chosen.length = run.length := by
  cases resolves <;> simp

/-- No run is resolved where several operators stand for an operand. -/
theorem not_crowded (resolves : Resolves textSize starts ends run chosen)
    (several : 2 ≤ run.length) (start : starts) : ¬ ends := by
  intro stop
  cases resolves with
  | alone => simp at several
  | leading _ _ noStop => exact noStop stop
  | trailing _ noStart | leaning _ noStart | parted _ _ _ _ noStart => exact noStart start

theorem assigns (resolves : Resolves textSize starts ends run chosen)
    (undecided : ∀ token ∈ run, token.kind = .operator .ambiguous) :
    List.Forall₂ Assigns run chosen := by
  cases resolves with
  | alone token => exact .cons (.withKind (undecided token List.mem_cons_self) nofun) .nil
  | leading => exact assigns_map .prefixOp nofun undecided
  | trailing | leaning => exact assigns_map .suffixOp nofun undecided
  | parted front token back fixity _ _ _ turns =>
      rw [List.forall_mem_append, List.forall_mem_cons] at undecided
      have decided : Kind.operator fixity ≠ .operator .ambiguous := by
        rcases turns with ⟨-, rfl⟩ | ⟨-, rfl⟩ <;> nofun
      exact List.rel_append (assigns_map .suffixOp nofun undecided.1)
        (.cons (.withKind undecided.2.1 decided) (assigns_map .prefixOp nofun undecided.2.2))

/-- A run between operands stays one with another operator in front that has space behind
it alone. -/
theorem cons (leans : ¬ SpaceBefore token ∧ SpaceBehind textSize token) (noStart : ¬ starts)
    (noStop : ¬ ends) (resolves : Resolves textSize starts ends run chosen) :
    Resolves textSize starts ends (token :: run) (token.withFixity .suffixOp :: chosen) := by
  cases resolves with
  | alone _ start | leading _ start => exact absurd start noStart
  | trailing _ _ stop => exact absurd stop noStop
  | leaning run _ _ others =>
      exact .leaning (token :: run) noStart noStop (List.forall_mem_cons.mpr ⟨leans, others⟩)
  | parted front other back fixity _ _ others turns =>
      exact .parted (token :: front) other back fixity noStart noStop
        (List.forall_mem_cons.mpr ⟨leans, others⟩) turns

end Resolves

/-- The sides of an operator say where there is space. -/
theorem sides_eq_iff {before behind : Bool} :
    sides textSize token = (before, behind) ↔
      (SpaceBefore token ↔ before = true) ∧ (SpaceBehind textSize token ↔ behind = true) := by
  cases line : token.lineOperator <;> cases before <;> cases behind <;>
    simp [sides, SpaceBefore, SpaceBehind, line, Token.blankBefore, Token.blankAfter,
      Token.heightBefore, Token.heightAfter, Token.spaceBefore, Token.spaceAfter, Token.metrics,
      Metrics.measure]

theorem resolve_leading (textSize : Nat) (run : List Token) :
    resolve textSize true false run = .ok (run.map (·.withFixity .prefixOp)) := by
  cases run <;> rfl

theorem resolve_trailing (textSize : Nat) (run : List Token) :
    resolve textSize false true run = .ok (run.map (·.withFixity .suffixOp)) := by
  cases run <;> rfl

/-- Between operands no run is refused. -/
theorem resolve_between (textSize : Nat) (run : List Token) (noStart : ¬ starts)
    (noStop : ¬ ends) :
    ∃ chosen, resolve textSize false false run = .ok chosen ∧
      Resolves textSize starts ends run chosen := by
  have none : ∀ other ∈ [], ¬ SpaceBefore other ∧ SpaceBehind textSize other :=
    List.forall_mem_nil _
  induction run with
  | nil => exact ⟨[], rfl, .leaning [] noStart noStop none⟩
  | cons token run ih =>
      -- The first operator that does not trail has all behind it lead.
      have parted : ∀ fixity, leaning textSize token = fixity → fixity ≠ .suffixOp →
          resolve textSize false false (token :: run) =
            .ok (token.withFixity fixity :: run.map (·.withFixity .prefixOp)) := by
        rintro fixity rfl forward
        have notSuffix : (leaning textSize token != .suffixOp) = true := by simpa using forward
        rw [resolve, notSuffix, resolve_leading]
        rfl
      rcases sides_eq : sides textSize token with ⟨_ | _, _ | _⟩ <;>
        obtain ⟨before_iff, behind_iff⟩ := sides_eq_iff.mp sides_eq
      · refine ⟨_, parted .infixOp (by rw [leaning, sides_eq]) (by decide), ?_⟩
        exact .parted [] token run .infixOp noStart noStop none
          (.inr ⟨before_iff.trans behind_iff.symm, rfl⟩)
      · obtain ⟨chosen, resolve_eq, resolves⟩ := ih
        have leans : leaning textSize token = .suffixOp := by rw [leaning, sides_eq]
        refine ⟨token.withFixity .suffixOp :: chosen, ?_,
          resolves.cons (by simp [before_iff, behind_iff]) noStart noStop⟩
        rw [resolve, leans]
        change (resolve textSize false false run).map _ = _
        rw [resolve_eq]
        rfl
      · refine ⟨_, parted .prefixOp (by rw [leaning, sides_eq]) (by decide), ?_⟩
        exact .parted [] token run .prefixOp noStart noStop none
          (.inl ⟨by simp [before_iff, behind_iff], rfl⟩)
      · refine ⟨_, parted .infixOp (by rw [leaning, sides_eq]) (by decide), ?_⟩
        exact .parted [] token run .infixOp noStart noStop none
          (.inr ⟨before_iff.trans behind_iff.symm, rfl⟩)

/-- A run is resolved, unless it is of several operators that stand for an operand. -/
theorem resolve_cases (textSize : Nat) {due dueAfter : Bool} (nonempty : run ≠ [])
    (start_iff : due = true ↔ starts) (stop_iff : dueAfter = true ↔ ends) :
    (∃ chosen, resolve textSize due dueAfter run = .ok chosen ∧
        Resolves textSize starts ends run chosen) ∨
      2 ≤ run.length ∧ starts ∧ ends ∧
        resolve textSize due dueAfter run = .error (.ambiguousNullary run) := by
  cases due with
  | true =>
      have start := start_iff.mp rfl
      cases dueAfter with
      | true =>
          have stop := stop_iff.mp rfl
          match run, nonempty with
          | [token], _ => exact .inl ⟨_, rfl, .alone token start stop⟩
          | first :: second :: rest, _ => exact .inr ⟨by simp, start, stop, rfl⟩
      | false =>
          exact .inl ⟨_, resolve_leading textSize run, .leading run start fun stop =>
            Bool.false_ne_true (stop_iff.mpr stop)⟩
  | false =>
      have noStart : ¬ starts := fun start => Bool.false_ne_true (start_iff.mpr start)
      cases dueAfter with
      | true =>
          exact .inl ⟨_, resolve_trailing textSize run, .trailing run noStart (stop_iff.mp rfl)⟩
      | false =>
          exact .inl (resolve_between textSize run noStart fun stop =>
            Bool.false_ne_true (stop_iff.mpr stop))

theorem resolve_settles {due dueAfter : Bool}
    (undecided : ∀ token ∈ run, token.kind = .operator .ambiguous)
    (start_iff : due = true ↔ starts) (stop_iff : dueAfter = true ↔ ends)
    (resolve_eq : resolve textSize due dueAfter run = .ok chosen) :
    List.Forall₂ Assigns run chosen ∧
      (run ≠ [] → Resolves textSize starts ends run chosen) := by
  by_cases empty : run = []
  · subst empty
    cases resolve_eq
    exact ⟨.nil, absurd rfl⟩
  · rcases resolve_cases textSize empty start_iff stop_iff with
      ⟨others, others_eq, resolves⟩ | ⟨-, -, -, error_eq⟩
    · rw [resolve_eq] at others_eq
      cases others_eq
      exact ⟨resolves.assigns undecided, fun _ => resolves⟩
    · rw [resolve_eq] at error_eq
      contradiction

theorem resolve_refuses {due dueAfter : Bool} {error : Error}
    (start_iff : due = true ↔ starts) (stop_iff : dueAfter = true ↔ ends)
    (resolve_eq : resolve textSize due dueAfter run = .error error) :
    2 ≤ run.length ∧ starts ∧ ends ∧ error = .ambiguousNullary run := by
  have nonempty : run ≠ [] := by
    rintro rfl
    contradiction
  rcases resolve_cases textSize nonempty start_iff stop_iff with
    ⟨others, others_eq, -⟩ | ⟨several, start, stop, error_eq⟩
  · rw [resolve_eq] at others_eq
    contradiction
  · rw [resolve_eq] at error_eq
    cases error_eq
    exact ⟨several, start, stop, rfl⟩

/-! ## Runs among decided tokens -/

theorem EndsDecided.eq_nil {first second : List Token} (decided : EndsDecided (first ++ second))
    (undecided : ∀ token ∈ second, token.kind = .operator .ambiguous) : second = [] := by
  rcases List.eq_nil_or_concat second with rfl | ⟨front, last, rfl⟩
  · rfl
  · refine absurd (undecided last (by simp)) (decided last ?_)
    simp [List.concat_eq_append, List.getLast?_append]

theorem StartsDecided.eq_nil {first second : List Token} (decided : StartsDecided (first ++ second))
    (undecided : ∀ token ∈ first, token.kind = .operator .ambiguous) : first = [] := by
  cases first with
  | nil => rfl
  | cons head first =>
      exact absurd (undecided head List.mem_cons_self) (decided head rfl)

/-- Undecided operators reach as far as there are any. -/
theorem eq_of_undecided {run' back' : List Token} (split_eq : run ++ back = run' ++ back')
    (undecided : ∀ token ∈ run, token.kind = .operator .ambiguous)
    (undecided' : ∀ token ∈ run', token.kind = .operator .ambiguous)
    (decided : StartsDecided back) (decided' : StartsDecided back') :
    run' = run ∧ back' = back := by
  rcases List.append_eq_append_iff.mp split_eq with ⟨rest, rfl, rfl⟩ | ⟨rest, rfl, rfl⟩
  · obtain rfl := decided.eq_nil fun token member =>
      undecided' token (List.mem_append_right run member)
    simp
  · obtain rfl := decided'.eq_nil fun token member =>
      undecided token (List.mem_append_right run' member)
    simp

/-- Where undecided operators have decided tokens on either side, a run lies before them, is
of all of them, or lies behind them. -/
theorem IsRun.cases {front' run' back' : List Token}
    (isRun : IsRun (front ++ (run ++ back)) front' run' back')
    (undecided : ∀ token ∈ run, token.kind = .operator .ambiguous)
    (ends : EndsDecided front) (starts : StartsDecided back) :
    (∃ next rest, back' = next :: rest ++ (run ++ back) ∧
        IsRun front front' run' (next :: rest)) ∨
      front' = front ∧ run' = run ∧ back' = back ∨
      ∃ rest, front' = front ++ (run ++ rest) ∧ back = rest ++ (run' ++ back') := by
  rcases List.append_eq_append_iff.mp isRun.split_eq with
    ⟨behind, rfl, behind_eq⟩ | ⟨behind, rfl, behind_eq⟩
  · -- The run starts where the undecided operators do, or later.
    rcases List.append_eq_append_iff.mp behind_eq with ⟨rest, rfl, back_eq⟩ | ⟨rest, rfl, rest_eq⟩
    · exact .inr (.inr ⟨rest, rfl, back_eq⟩)
    · obtain rfl := isRun.front_decided.eq_nil fun token member =>
        undecided token (List.mem_append_left rest member)
      have same := eq_of_undecided rest_eq.symm undecided isRun.undecided starts
        isRun.back_decided
      exact .inr (.inl ⟨List.append_nil front, same⟩)
  · -- The run starts before them, and does not reach them unless it is of all of them.
    rcases List.append_eq_append_iff.mp behind_eq with ⟨rest, rfl, rfl⟩ | ⟨rest, run_eq, rest_eq⟩
    · cases rest with
      | nil =>
          rw [List.append_nil] at ends
          exact absurd (ends.eq_nil isRun.undecided) isRun.nonempty
      | cons next rest =>
          exact .inl ⟨next, rest, rfl, by simp, isRun.nonempty, isRun.undecided,
            isRun.front_decided, isRun.back_decided⟩
    · have here : ∀ token ∈ behind, token.kind = .operator .ambiguous := fun token member =>
        isRun.undecided token (run_eq ▸ List.mem_append_left rest member)
      obtain rfl := ends.eq_nil here
      rw [List.nil_append] at run_eq
      have same := eq_of_undecided rest_eq undecided (run_eq ▸ isRun.undecided) starts
        isRun.back_decided
      exact .inr (.inl ⟨(List.append_nil _).symm, run_eq.trans same.1, same.2⟩)

/-! ## Deciding run by run -/

namespace Settles

theorem nil (textSize : Nat) : Settles textSize [] [] where
  each := .nil
  runs front run back isRun := by
    have none := (List.append_eq_nil_iff.mp isRun.split_eq.symm).2
    exact absurd (List.append_eq_nil_iff.mp none).1 isRun.nonempty

/-- One more run is decided, with the decided tokens behind it. -/
theorem append (settles : Settles textSize tokens written) (ends : EndsDecided tokens)
    (undecided : ∀ token ∈ run, token.kind = .operator .ambiguous)
    (decided : ∀ token ∈ rest, token.kind ≠ .operator .ambiguous)
    (resolves : run ≠ [] →
      Resolves textSize (PrefixContext tokens) (SuffixContext rest) run chosen)
    (each : List.Forall₂ Assigns run chosen) :
    Settles textSize (tokens ++ (run ++ rest)) (written ++ (chosen ++ rest)) := by
  constructor
  · have kept : List.Forall₂ Assigns rest rest := by
      rw [List.forall₂_same]
      exact fun token member => .refl (decided token member)
    exact List.rel_append settles.each (List.rel_append each kept)
  · intro front run' back isRun
    have starts : StartsDecided rest :=
      fun next member => decided next (List.mem_of_mem_head? member)
    rcases isRun.cases undecided ends starts with
      ⟨next, behind, rfl, within⟩ | ⟨rfl, rfl, rfl⟩ | ⟨behind, rfl, rfl⟩
    · obtain ⟨before, earlier, later, rfl, length_eq, resolved⟩ := settles.runs front run' _ within
      refine ⟨before, earlier, later ++ (chosen ++ rest), by simp, length_eq, ?_⟩
      rwa [SuffixContext, List.cons_append]
    · exact ⟨written, chosen, back, rfl, settles.each.length_eq.symm, resolves isRun.nonempty⟩
    · obtain ⟨first, member⟩ := List.exists_mem_of_ne_nil run' isRun.nonempty
      exact absurd (isRun.undecided first member) (decided first (by simp [member]))

/-- No run among decided tokens is refused. -/
theorem not_crowded (settles : Settles textSize tokens written)
    (isRun : IsRun tokens front run back) : ¬ Crowded front run back := by
  intro crowded
  obtain ⟨_, _, _, _, _, resolves⟩ := settles.runs front run back isRun
  exact resolves.not_crowded crowded.several crowded.starts crowded.ends

end Settles

/-- What a state knows of the tokens that were read and of those that were written. -/
structure Decided (textSize : Nat) (read written : List Token) (state : State) : Prop where
  exists_done : ∃ done, read = done ++ state.run.reverse ∧ Settles textSize done written ∧
    EndsDecided done ∧ (state.due = true ↔ PrefixContext done)
  undecided : ∀ token ∈ state.run.reverse, token.kind = .operator .ambiguous

theorem decided_start (textSize : Nat) : Decided textSize [] [] ⟨[], true⟩ where
  exists_done := ⟨[], rfl, .nil textSize, endsDecided_nil, by simp [prefixContext_nil]⟩
  undecided := List.forall_mem_nil _

namespace Decided

variable {read : List Token} {state next : State} {now : List Token} {error : Error}

/-- Where the run of a state is resolved, all tokens up to it are decided. -/
theorem settles (decided : Decided textSize read written state) {due : Bool}
    (stop_iff : due = true ↔ SuffixContext rest)
    (restDecided : ∀ token ∈ rest, token.kind ≠ .operator .ambiguous)
    (resolve_eq : resolve textSize state.due due state.run.reverse = .ok chosen) :
    Settles textSize (read ++ rest) (written ++ (chosen ++ rest)) := by
  obtain ⟨done, rfl, settles, ends, start_iff⟩ := decided.exists_done
  obtain ⟨each, resolves⟩ := resolve_settles decided.undecided start_iff stop_iff resolve_eq
  rw [List.append_assoc]
  exact settles.append ends decided.undecided restDecided resolves each

/-- Where the run of a state is refused, it is of several operators that stand for an
operand, and the tokens before it are decided. -/
theorem exists_crowded (decided : Decided textSize read written state) {due : Bool}
    (stop_iff : due = true ↔ SuffixContext back) (backDecided : StartsDecided back)
    (resolve_eq : resolve textSize state.due due state.run.reverse = .error error) :
    ∃ front run, IsRun (read ++ back) front run back ∧ Crowded front run back ∧
      error = .ambiguousNullary run ∧ Settles textSize front written := by
  obtain ⟨done, rfl, settles, ends, start_iff⟩ := decided.exists_done
  obtain ⟨several, starts, stops, rfl⟩ := resolve_refuses start_iff stop_iff resolve_eq
  have nonempty : state.run.reverse ≠ [] := List.ne_nil_of_length_pos (by omega)
  exact ⟨done, state.run.reverse, ⟨List.append_assoc _ _ _, nonempty, decided.undecided, ends,
    backDecided⟩, ⟨several, starts, stops⟩, rfl, settles⟩

theorem step (decided : Decided textSize read written state)
    (step_eq : (stage textSize).step state token = .ok (next, now)) :
    Decided textSize (read ++ [token]) (written ++ now) next := by
  by_cases ambiguous : token.kind = .operator .ambiguous
  · rw [step_of_ambiguous _ _ ambiguous] at step_eq
    cases step_eq
    obtain ⟨done, rfl, settles, ends, start_iff⟩ := decided.exists_done
    refine ⟨⟨done, by simp, by simpa using settles, ends, start_iff⟩, ?_⟩
    have undecided := decided.undecided
    simp only [List.reverse_cons, List.forall_mem_append, List.forall_mem_singleton]
    exact ⟨undecided, ambiguous⟩
  · rw [step_of_decided _ _ ambiguous] at step_eq
    obtain ⟨chosen, resolve_eq, result_eq⟩ := Except.map_eq_ok_iff.mp step_eq
    cases result_eq
    have settles := decided.settles (suffixContext_cons token []).symm
      (List.forall_mem_singleton.mpr ambiguous) resolve_eq
    refine ⟨⟨read ++ [token], by simp, settles, ?_, ?_⟩, List.forall_mem_nil _⟩
    · intro last member
      rw [List.getLast?_concat, Option.mem_some_iff] at member
      exact member ▸ ambiguous
    · exact (prefixContext_concat ambiguous read).symm

end Decided

theorem decided_of_reaches {read : List Token} {state : State}
    (reaches : (stage textSize).Reaches ⟨[], true⟩ read written state) :
    Decided textSize read written state :=
  reaches.invariant (Decided textSize)
    (fun _ _ _ _ _ _ decided (_ : True) step_eq => decided.step step_eq) (decided_start textSize)
    fun _ _ => trivial

theorem emits_settles (emits : (stage textSize).Emits ⟨[], true⟩ tokens none written none) :
    Settles textSize tokens written := by
  obtain ⟨reached, before, last, rfl, reaches, finish_eq⟩ := emits.exists_finish
  have settles := (decided_of_reaches reaches).settles (iff_of_true rfl suffixContext_nil)
    (List.forall_mem_nil _) finish_eq
  simpa using settles

/-- Operators are decided run by run, or up to the first run of several operators that stand
for an operand, which is refused. -/
theorem chooseFixities_settles (textSize : Nat) (tokens : List Token) :
    (∃ written, chooseFixities textSize (tokens.map .ok) = written.map .ok ∧
        Settles textSize tokens written ∧
        ∀ front run back, IsRun tokens front run back → ¬ Crowded front run back) ∨
      ∃ front run back written,
        chooseFixities textSize (tokens.map .ok) =
            written.map .ok ++ [.error (.ambiguousNullary run)] ∧
          IsRun tokens front run back ∧ Crowded front run back ∧
          Settles textSize front written ∧
          ∀ front' run' back', IsRun tokens front' run' back' → Crowded front' run' back' →
            front.length ≤ front'.length := by
  obtain ⟨written, ending, emits, output_eq⟩ :=
    (stage textSize).exists_emits ⟨[], true⟩ tokens none
  rw [stream_none] at output_eq
  cases ending with
  | none =>
      have settles := emits_settles emits
      rw [stream_none] at output_eq
      exact .inl ⟨written, output_eq, settles, fun _ _ _ isRun => settles.not_crowded isRun⟩
  | some error =>
      obtain ⟨reached, read, rest, rfl, reaches, fails⟩ := emits.exists_failing
      have decided := decided_of_reaches reaches
      have refused : ∃ front run, IsRun (read ++ rest) front run rest ∧ Crowded front run rest ∧
          error = .ambiguousNullary run ∧ Settles textSize front written := by
        rcases fails with ⟨rfl, finish_eq⟩ | ⟨token, behind, rfl, step_eq⟩
        · exact decided.exists_crowded (iff_of_true rfl suffixContext_nil) startsDecided_nil
            finish_eq
        · by_cases ambiguous : token.kind = .operator .ambiguous
          · rw [step_of_ambiguous _ _ ambiguous] at step_eq
            contradiction
          · rw [step_of_decided _ _ ambiguous, Except.map_eq_error_iff] at step_eq
            refine decided.exists_crowded (suffixContext_cons token behind).symm ?_ step_eq
            intro next member
            rw [List.head?_cons, Option.mem_some_iff] at member
            exact member ▸ ambiguous
      obtain ⟨front, run, isRun, crowded, rfl, settles⟩ := refused
      refine .inr ⟨front, run, rest, written, output_eq, isRun, crowded, settles, ?_⟩
      intro front' run' back' isRun' crowded'
      rw [isRun.split_eq] at isRun'
      rcases isRun'.cases isRun.undecided isRun.front_decided isRun.back_decided with
        ⟨next, behind, rfl, within⟩ | ⟨rfl, -, -⟩ | ⟨behind, rfl, -⟩
      · have ends := crowded'.ends
        rw [SuffixContext, List.cons_append] at ends
        exact absurd ⟨crowded'.several, crowded'.starts, ends⟩ (settles.not_crowded within)
      · exact Nat.le_refl _
      · simp

/-! ## An operator and its neighbours -/

theorem exists_startsDecided (tokens : List Token) :
    ∃ run rest, tokens = run ++ rest ∧ StartsDecided rest ∧
      ∀ token ∈ run, token.kind = .operator .ambiguous := by
  induction tokens with
  | nil => exact ⟨[], [], rfl, startsDecided_nil, List.forall_mem_nil _⟩
  | cons token tokens ih =>
      by_cases ambiguous : token.kind = .operator .ambiguous
      · obtain ⟨run, rest, rfl, starts, undecided⟩ := ih
        exact ⟨token :: run, rest, rfl, starts, List.forall_mem_cons.mpr ⟨ambiguous, undecided⟩⟩
      · refine ⟨[], token :: tokens, rfl, fun next member => ?_, List.forall_mem_nil _⟩
        rw [List.head?_cons, Option.mem_some_iff] at member
        exact member ▸ ambiguous

theorem exists_endsDecided (tokens : List Token) :
    ∃ rest run, tokens = rest ++ run ∧ EndsDecided rest ∧
      ∀ token ∈ run, token.kind = .operator .ambiguous := by
  obtain ⟨run, rest, tokens_eq, starts, undecided⟩ := exists_startsDecided tokens.reverse
  refine ⟨rest.reverse, run.reverse, by simpa using congrArg List.reverse tokens_eq, ?_, ?_⟩
  · rwa [EndsDecided, List.getLast?_reverse]
  · simpa using undecided

/-- A part of a list lies in another that reaches as far on both sides. -/
theorem exists_of_append_eq {α : Type} {before outer behind front inner back : List α}
    (split_eq : before ++ (outer ++ behind) = front ++ (inner ++ back))
    (left : before.length ≤ front.length)
    (right : front.length + inner.length ≤ before.length + outer.length) :
    ∃ first second, outer = first ++ (inner ++ second) := by
  obtain ⟨first, rfl⟩ : before <+: front := List.prefix_of_prefix_length_le
    ⟨_, split_eq⟩ ⟨_, rfl⟩ left
  rw [List.append_assoc] at split_eq
  have rest_eq := List.append_cancel_left split_eq
  rw [← List.append_assoc] at rest_eq
  obtain ⟨second, rfl⟩ : first ++ inner <+: outer := List.prefix_of_prefix_length_le
    ⟨_, rest_eq.symm⟩ ⟨_, rfl⟩ (by simp at right ⊢; omega)
  exact ⟨first, second, List.append_assoc _ _ _⟩

namespace Resolves

/-- Where an operand has to start before a run, its operators lead it or stand for it. -/
theorem leads (resolves : Resolves textSize starts ends run chosen) (start : starts) :
    ∀ other ∈ chosen, other.kind = .operator .prefixOp ∨ other.kind = .nullary := by
  cases resolves with
  | alone => exact List.forall_mem_singleton.mpr (.inr rfl)
  | leading => exact List.forall_mem_map.mpr fun _ _ => .inl rfl
  | trailing _ noStart | leaning _ noStart | parted _ _ _ _ noStart => exact absurd start noStart

/-- Where an operand has to end behind a run, its operators trail it or stand for it. -/
theorem trails (resolves : Resolves textSize starts ends run chosen) (stop : ends) :
    ∀ other ∈ chosen, other.kind = .operator .suffixOp ∨ other.kind = .nullary := by
  cases resolves with
  | alone => exact List.forall_mem_singleton.mpr (.inr rfl)
  | trailing => exact List.forall_mem_map.mpr fun _ _ => .inl rfl
  | leading _ _ noStop | leaning _ _ noStop | parted _ _ _ _ _ noStop => exact absurd stop noStop

/-- Of two operators, the first trails what is before the run, or the second leads what is
behind it. -/
theorem parts (resolves : Resolves textSize starts ends run chosen) :
    chosen.Pairwise fun first second =>
      first.kind = .operator .suffixOp ∨ second.kind = .operator .prefixOp := by
  cases resolves with
  | alone => exact List.pairwise_singleton _ _
  | leading => exact List.pairwise_map.mpr (List.pairwise_of_forall fun _ _ => .inr rfl)
  | trailing | leaning =>
      exact List.pairwise_map.mpr (List.pairwise_of_forall fun _ _ => .inl rfl)
  | parted =>
      refine List.pairwise_append.mpr ⟨?_, List.pairwise_cons.mpr ⟨?_, ?_⟩, ?_⟩
      · exact List.pairwise_map.mpr (List.pairwise_of_forall fun _ _ => .inl rfl)
      · exact List.forall_mem_map.mpr fun _ _ => .inr rfl
      · exact List.pairwise_map.mpr (List.pairwise_of_forall fun _ _ => .inr rfl)
      · exact List.forall_mem_map.mpr fun _ _ _ _ => .inl rfl

end Resolves

namespace Settles

variable {front' back' : List Token} {other first second first' second' : Token}

/-- Undecided operators next to each other are resolved as a part of their run. -/
theorem exists_resolves (settles : Settles textSize tokens written) (inner inner' : List Token)
    (tokens_eq : tokens = front ++ (inner ++ back)) (nonempty : inner ≠ [])
    (undecided : ∀ token ∈ inner, token.kind = .operator .ambiguous)
    (written_eq : written = front' ++ (inner' ++ back'))
    (front_length : front'.length = front.length) (inner_length : inner'.length = inner.length) :
    ∃ before first second behind earlier later, front = before ++ first ∧ back = second ++ behind ∧
      (∀ token ∈ first ++ second, token.kind = .operator .ambiguous) ∧
      Resolves textSize (PrefixContext before) (SuffixContext behind) (first ++ (inner ++ second))
        (earlier ++ (inner' ++ later)) := by
  obtain ⟨before, first, rfl, ends, firstUndecided⟩ := exists_endsDecided front
  obtain ⟨second, behind, rfl, starts, secondUndecided⟩ := exists_startsDecided back
  have isRun : IsRun tokens before (first ++ (inner ++ second)) behind := by
    refine ⟨by simp [tokens_eq], by simp [nonempty], ?_, ends, starts⟩
    simpa only [List.forall_mem_append] using ⟨firstUndecided, undecided, secondUndecided⟩
  obtain ⟨before', chosen, behind', rfl, length_eq, resolves⟩ := settles.runs _ _ _ isRun
  have chosen_length := resolves.length_eq
  simp only [List.length_append] at front_length chosen_length
  obtain ⟨earlier, later, rfl⟩ := exists_of_append_eq written_eq (by omega) (by omega)
  exact ⟨before, first, second, behind, earlier, later, rfl, rfl,
    List.forall_mem_append.mpr ⟨firstUndecided, secondUndecided⟩, resolves⟩

/-- An operator leads an operand or stands for one where one has to start in front of it. -/
theorem leads (settles : Settles textSize tokens written)
    (tokens_eq : tokens = front ++ token :: back)
    (undecided : token.kind = .operator .ambiguous) (context : PrefixContext front)
    (written_eq : written = front' ++ other :: back')
    (front_length : front'.length = front.length) :
    other.kind = .operator .prefixOp ∨ other.kind = .nullary := by
  obtain ⟨before, first, second, behind, earlier, later, rfl, -, others, resolves⟩ :=
    settles.exists_resolves [token] [other] tokens_eq (List.cons_ne_nil _ _)
      (List.forall_mem_singleton.mpr undecided) written_eq front_length rfl
  rw [List.forall_mem_append] at others
  obtain rfl := context.endsDecided.eq_nil others.1
  rw [List.append_nil] at context
  exact resolves.leads context other (by simp)

/-- An operator trails an operand or stands for one where one has to end behind it. -/
theorem trails (settles : Settles textSize tokens written)
    (tokens_eq : tokens = front ++ token :: back)
    (undecided : token.kind = .operator .ambiguous) (context : SuffixContext back)
    (written_eq : written = front' ++ other :: back')
    (front_length : front'.length = front.length) :
    other.kind = .operator .suffixOp ∨ other.kind = .nullary := by
  obtain ⟨before, first, second, behind, earlier, later, -, rfl, others, resolves⟩ :=
    settles.exists_resolves [token] [other] tokens_eq (List.cons_ne_nil _ _)
      (List.forall_mem_singleton.mpr undecided) written_eq front_length rfl
  rw [List.forall_mem_append] at others
  obtain rfl := context.startsDecided.eq_nil others.2
  exact resolves.trails context other (by simp)

/-- Of two operators side by side, the first trails an operand or the second leads one. -/
theorem parts (settles : Settles textSize tokens written)
    (tokens_eq : tokens = front ++ first :: second :: back)
    (undecided : first.kind = .operator .ambiguous ∧ second.kind = .operator .ambiguous)
    (written_eq : written = front' ++ first' :: second' :: back')
    (front_length : front'.length = front.length) :
    first'.kind = .operator .suffixOp ∨ second'.kind = .operator .prefixOp := by
  obtain ⟨_, _, _, _, earlier, later, -, -, -, resolves⟩ :=
    settles.exists_resolves [first, second] [first', second'] tokens_eq (List.cons_ne_nil _ _)
      (by simpa using undecided) written_eq front_length rfl
  have apart := (List.pairwise_append.mp resolves.parts).2.1
  exact (List.pairwise_cons.mp apart).1 second' (by simp)

end Settles

end FixityChoice

end OperatorMarkup
