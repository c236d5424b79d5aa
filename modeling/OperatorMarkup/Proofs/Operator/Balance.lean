import OperatorMarkup.Proofs.Operator.Levels

/-!
# What lies between two brackets

Brackets and indentation share one stack.  Between a bracket and its partner the scan
of all delimiters therefore never reaches below the bracket, and finds nothing left
open: the delimiters there nest by themselves.
-/

namespace OperatorMarkup

namespace Operator

/-- The brackets among some operators, as tokens. -/
def bracketTokens (ops : List Operator) : List Token :=
  (ops.map Operator.token).filter Token.isBracket

/-- Operators that wait for their partners. -/
def AllWait (lexicon : Lexicon) (pending : List Operator) : Prop :=
  ∀ op ∈ pending, op.Fits lexicon ∧ op.right.merge.isRequired = true

variable {lexicon : Lexicon} {op opener closer : Operator}
  {ops inside first rest pending base next reached : List Operator}

theorem bracketTokens_append (first second : List Operator) :
    bracketTokens (first ++ second) = bracketTokens first ++ bracketTokens second := by
  simp [bracketTokens]

theorem bracketTokens_cons_of_isBracket (bracket : op.token.isBracket = true) :
    bracketTokens (op :: ops) = op.token :: bracketTokens ops := by
  simp [bracketTokens, bracket]

theorem bracketTokens_cons_of_not_isBracket (other : op.token.isBracket = false) :
    bracketTokens (op :: ops) = bracketTokens ops := by
  simp [bracketTokens, other]

/-! ## A scan on top of another -/

/-- A scan on top of delimiters that wait leaves them alone, or gets to the bottom and
ends the wait of the innermost of them. -/
theorem nest_onto (nest_eq : nest (pending ++ base) ops = .ok reached) :
    (∃ kept, nest pending ops = .ok kept ∧ reached = kept ++ base) ∨
      ∃ first op rest opener outer, ops = first ++ op :: rest ∧ nest pending first = .ok [] ∧
        op.left.merge.isRequired = true ∧ base = opener :: outer ∧
        opener.right.accepts op.left = true := by
  induction ops generalizing pending with
  | nil =>
      obtain rfl := Except.ok.inj nest_eq
      exact .inl ⟨pending, rfl, rfl⟩
  | cons op ops ih =>
      rw [nest_cons] at nest_eq
      obtain ⟨next, step_eq, rest_eq⟩ := Except.bind_eq_ok_iff.mp nest_eq
      have behind : ∀ kept, nestStep pending op = .ok kept → next = kept ++ base →
          (∃ kept, nest pending (op :: ops) = .ok kept ∧ reached = kept ++ base) ∨
            ∃ first op' rest opener outer, op :: ops = first ++ op' :: rest ∧
              nest pending first = .ok [] ∧ op'.left.merge.isRequired = true ∧
              base = opener :: outer ∧ opener.right.accepts op'.left = true := by
        rintro kept kept_eq rfl
        rcases ih rest_eq with ⟨last, last_eq, reached_eq⟩ |
          ⟨first, op', rest, opener, outer, split_eq, first_eq, bottom⟩
        · refine .inl ⟨last, ?_, reached_eq⟩
          rw [nest_cons, kept_eq]
          exact last_eq
        · refine .inr ⟨op :: first, op', rest, opener, outer, by rw [split_eq]; rfl, ?_, bottom⟩
          rw [nest_cons, kept_eq]
          exact first_eq
      cases closing : op.left.merge.isRequired with
      | false =>
          rw [nestStep_of_not_closing closing] at step_eq
          obtain rfl := Except.ok.inj step_eq
          apply behind _ (nestStep_of_not_closing closing)
          split <;> rfl
      | true =>
          cases pending with
          | nil =>
              cases base with
              | nil =>
                  simp [nestStep, closing] at step_eq
              | cons opener outer =>
                  rw [List.nil_append, nestStep_of_closing closing] at step_eq
                  split at step_eq
                  · next accepts =>
                      exact .inr ⟨[], op, ops, opener, outer, rfl, rfl, closing, rfl, accepts⟩
                  · contradiction
          | cons opener pending =>
              rw [List.cons_append, nestStep_of_closing closing] at step_eq
              split at step_eq
              · next accepts =>
                  obtain rfl := Except.ok.inj step_eq
                  apply behind pending _ rfl
                  rw [nestStep_of_closing closing, if_pos accepts]
              · contradiction

/-! ## The brackets of a scan -/

/-- An operator that waits is a bracket, or an indent. -/
theorem AllWait.cases_head (waits : AllWait lexicon (op :: pending)) :
    op.token.lexeme = .opener ∨ op.token.lexeme = .indent :=
  (waits op List.mem_cons_self).1.right_isRequired_iff.mp (waits op List.mem_cons_self).2

theorem AllWait.tail (waits : AllWait lexicon (op :: pending)) : AllWait lexicon pending :=
  fun other member => waits other (List.mem_cons_of_mem _ member)

/-- An operator that opens something waits. -/
theorem nestStep_opens (fits : op.Fits lexicon) (waits : AllWait lexicon pending)
    (opens : op.token.lexeme = .opener ∨ op.token.lexeme = .indent) :
    nestStep pending op = .ok (op :: pending) ∧ AllWait lexicon (op :: pending) := by
  have required : op.right.merge.isRequired = true := fits.right_isRequired_iff.mpr opens
  have notClosing : op.left.merge.isRequired = false := by
    rw [Bool.eq_false_iff, ne_eq, fits.left_isRequired_iff]
    rcases opens with lexeme_eq | lexeme_eq <;> simp [lexeme_eq]
  rw [nestStep_of_not_closing notClosing, if_pos required]
  exact ⟨rfl, List.forall_mem_cons.mpr ⟨⟨fits, required⟩, waits⟩⟩

/-- Brackets pair with brackets, and dedents with indents. -/
theorem nestStep_closes (fits : op.Fits lexicon) (waits : AllWait lexicon pending)
    (closes : op.token.lexeme = .closer ∨ op.token.lexeme = .dedent)
    (step_eq : nestStep pending op = .ok next) :
    ∃ opener, pending = opener :: next ∧ opener.right.accepts op.left = true ∧
      (opener.token.lexeme = .opener ∧ op.token.lexeme = .closer ∧
          lexicon.Pairs opener.token.text op.token.text ∨
        opener.token.lexeme = .indent ∧ op.token.lexeme = .dedent) := by
  have closing : op.left.merge.isRequired = true := fits.left_isRequired_iff.mpr closes
  cases pending with
  | nil => simp [nestStep, closing] at step_eq
  | cons opener pending =>
      rw [nestStep_of_closing closing] at step_eq
      split at step_eq
      · next accepts =>
          obtain rfl := Except.ok.inj step_eq
          refine ⟨opener, rfl, accepts, ?_⟩
          have openerFits := (waits opener List.mem_cons_self).1
          have joined := accepts
          rw [openerFits.eq, fits.eq] at joined
          rcases waits.cases_head with opener_eq | indent_eq <;>
            rcases closes with closer_eq | dedent_eq
          · exact .inl ⟨opener_eq, closer_eq, (opener_accepts_closer_iff openerFits.token fits.token
              opener_eq closer_eq).mp joined⟩
          · rw [opener_refuses_dedent openerFits.token opener_eq dedent_eq] at joined
            contradiction
          · rw [indent_refuses_closer fits.token indent_eq closer_eq] at joined
            contradiction
          · exact .inr ⟨indent_eq, dedent_eq⟩
      · contradiction

theorem isBracket_iff (token : Token) :
    token.isBracket = true ↔ token.lexeme = .opener ∨ token.lexeme = .closer := by
  simp [Token.isBracket]

/-- One step of the scan of all delimiters is one of the scan of the brackets. -/
theorem scanBrackets_of_nestStep (fits : op.Fits lexicon) (waits : AllWait lexicon pending)
    (step_eq : nestStep pending op = .ok next) :
    AllWait lexicon next ∧
      scanBrackets lexicon (bracketTokens pending) (bracketTokens [op]) =
        .ok (bracketTokens next) := by
  cases lexeme_eq : op.token.lexeme with
  | opener =>
      obtain ⟨opened_eq, opened⟩ := nestStep_opens fits waits (.inl lexeme_eq)
      rw [opened_eq] at step_eq
      obtain rfl := Except.ok.inj step_eq
      have bracket := (isBracket_iff op.token).mpr (.inl lexeme_eq)
      rw [bracketTokens_cons_of_isBracket bracket, bracketTokens_cons_of_isBracket bracket,
        scanBrackets_cons, bracketStep_opener lexeme_eq]
      exact ⟨opened, rfl⟩
  | indent =>
      obtain ⟨opened_eq, opened⟩ := nestStep_opens fits waits (.inr lexeme_eq)
      rw [opened_eq] at step_eq
      obtain rfl := Except.ok.inj step_eq
      have other : op.token.isBracket = false := by simp [Token.isBracket, lexeme_eq]
      rw [bracketTokens_cons_of_not_isBracket other, bracketTokens_cons_of_not_isBracket other]
      exact ⟨opened, rfl⟩
  | closer | dedent =>
      obtain ⟨opener, rfl, -, kinds⟩ := nestStep_closes fits waits (by simp [lexeme_eq]) step_eq
      refine ⟨waits.tail, ?_⟩
      rcases kinds with ⟨opener_eq, closer_eq, pairs⟩ | ⟨indent_eq, dedent_eq⟩
      · rw [bracketTokens_cons_of_isBracket ((isBracket_iff _).mpr (.inl opener_eq)),
          bracketTokens_cons_of_isBracket ((isBracket_iff _).mpr (.inr closer_eq)),
          scanBrackets_cons, bracketStep_closer closer_eq, if_pos pairs]
        rfl
      · rw [bracketTokens_cons_of_not_isBracket (by simp [Token.isBracket, indent_eq]),
          bracketTokens_cons_of_not_isBracket (by simp [Token.isBracket, dedent_eq])]
        rfl
  | word | operator | separator | lineBreak | juxtaposition | filler =>
      rw [nestStep_of_not_isDelimiter fits (by rw [lexeme_eq]; rfl)] at step_eq
      obtain rfl := Except.ok.inj step_eq
      rw [bracketTokens_cons_of_not_isBracket (by simp [Token.isBracket, lexeme_eq])]
      exact ⟨waits, rfl⟩

theorem scanBrackets_of_nest (fits : ∀ op ∈ ops, op.Fits lexicon)
    (waits : AllWait lexicon pending) (nest_eq : nest pending ops = .ok reached) :
    AllWait lexicon reached ∧
      scanBrackets lexicon (bracketTokens pending) (bracketTokens ops) =
        .ok (bracketTokens reached) := by
  induction ops generalizing pending with
  | nil =>
      obtain rfl := Except.ok.inj nest_eq
      exact ⟨waits, rfl⟩
  | cons op ops ih =>
      rw [List.forall_mem_cons] at fits
      rw [nest_cons] at nest_eq
      obtain ⟨next, step_eq, rest_eq⟩ := Except.bind_eq_ok_iff.mp nest_eq
      obtain ⟨nextWaits, head_eq⟩ := scanBrackets_of_nestStep fits.1 waits step_eq
      obtain ⟨reachedWaits, tail_eq⟩ := ih fits.2 nextWaits rest_eq
      refine ⟨reachedWaits, ?_⟩
      rw [← List.singleton_append, bracketTokens_append, scanBrackets_append, head_eq]
      exact tail_eq

/-! ## Between a bracket and its partner -/

/-- Between a bracket and a closing one, all delimiters nest by themselves where the
brackets do, and the two brackets pair. -/
theorem nest_between (fits : ∀ op ∈ first ++ opener :: inside ++ closer :: rest, op.Fits lexicon)
    (opener_eq : opener.token.lexeme = .opener) (closer_eq : closer.token.lexeme = .closer)
    (nested : Nested lexicon (bracketTokens inside))
    (nest_eq : nest [] (first ++ opener :: inside ++ closer :: rest) = .ok reached) :
    nest [] inside = .ok [] ∧ opener.right.accepts closer.left = true := by
  have noneWait : AllWait lexicon [] := fun _ member => absurd member List.not_mem_nil
  have openerFits : opener.Fits lexicon := fits opener (by simp)
  have closerFits : closer.Fits lexicon := fits closer (by simp)
  have insideFits : ∀ op ∈ inside, op.Fits lexicon := fun op member => fits op (by simp [member])
  rw [List.append_assoc, nest_append] at nest_eq
  obtain ⟨outer, first_eq, nest_eq⟩ := Except.bind_eq_ok_iff.mp nest_eq
  have outerWaits := (scanBrackets_of_nest (fun op member => fits op (by simp [member])) noneWait
    first_eq).1
  obtain ⟨opened_eq, openedWaits⟩ := nestStep_opens openerFits outerWaits (.inl opener_eq)
  rw [List.cons_append, nest_cons, opened_eq] at nest_eq
  change nest ([] ++ opener :: outer) (inside ++ closer :: rest) = _ at nest_eq
  rw [nest_append] at nest_eq
  obtain ⟨behind, inside_eq, nest_eq⟩ := Except.bind_eq_ok_iff.mp nest_eq
  rw [nest_cons] at nest_eq
  obtain ⟨last, closer_step, -⟩ := Except.bind_eq_ok_iff.mp nest_eq
  -- Either the opener is still open at the closer, or a delimiter inside has closed it.
  -- That one would be a bracket without its partner inside.
  rcases nest_onto inside_eq with ⟨kept, kept_eq, rfl⟩ |
    ⟨front, op, back, opener', outer', rfl, front_eq, closing, base_eq, accepts⟩
  · obtain ⟨keptWaits, scan_eq⟩ := scanBrackets_of_nest insideFits noneWait kept_eq
    rw [nested.scanBrackets_eq] at scan_eq
    have noBracket : bracketTokens kept = [] := (Except.ok.inj scan_eq).symm
    have allWait : AllWait lexicon (kept ++ opener :: outer) :=
      List.forall_mem_append.mpr ⟨keptWaits, openedWaits⟩
    obtain ⟨partner, split_eq, accepts, kinds⟩ :=
      nestStep_closes closerFits allWait (.inl closer_eq) closer_step
    cases kept with
    | nil =>
        obtain ⟨rfl, rfl⟩ := List.cons.inj split_eq
        exact ⟨kept_eq, accepts⟩
    | cons inner kept =>
        obtain ⟨rfl, rfl⟩ := List.cons.inj split_eq
        rcases kinds with ⟨inner_eq, -⟩ | ⟨-, dedent_eq⟩
        · rw [bracketTokens_cons_of_isBracket ((isBracket_iff _).mpr (.inl inner_eq))] at noBracket
          contradiction
        · rw [closer_eq] at dedent_eq
          contradiction
  · obtain ⟨rfl, rfl⟩ := List.cons.inj base_eq
    rw [List.forall_mem_append, List.forall_mem_cons] at insideFits
    obtain ⟨-, scan_eq⟩ := scanBrackets_of_nest insideFits.1 noneWait front_eq
    obtain ⟨_, split_eq, -, kinds⟩ := nestStep_closes insideFits.2.1 openedWaits
      (insideFits.2.1.left_isRequired_iff.mp closing)
      (by rw [nestStep_of_closing closing, if_pos accepts])
    obtain ⟨rfl, -⟩ := List.cons.inj split_eq
    rcases kinds with ⟨-, op_eq, -⟩ | ⟨indent_eq, -⟩
    · have whole := nested.scanBrackets_eq []
      rw [bracketTokens_append, scanBrackets_append] at whole
      change scanBrackets lexicon [] _ = .ok [] at scan_eq
      rw [scan_eq, bracketTokens_cons_of_isBracket ((isBracket_iff _).mpr (.inr op_eq))] at whole
      change (bracketStep lexicon [] op.token).bind _ = _ at whole
      simp only [bracketStep, op_eq] at whole
      contradiction
    · rw [opener_eq] at indent_eq
      contradiction

end Operator

end OperatorMarkup
