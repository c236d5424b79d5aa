import OperatorMarkup.Proofs.Grouping.Reading
import OperatorMarkup.Proofs.Operator.Joining

/-!
# Grouping nests delimiters

Nothing in grouping looks for matching delimiters, yet the delimiters that wait
for their partners are those of the open groups: a closing one ends every group
inside its own, and is refused by the first delimiter that it does not pair
with.  So grouping succeeds or fails as a stack scan of the delimiters does.
-/

namespace OperatorMarkup

open Grouping

namespace Operator

/-! ## The scan -/

/-- Read an operator behind the delimiters that wait for their partners,
innermost first. -/
def nestStep (pending : List Operator) (op : Operator) : Except Error (List Operator) :=
  if op.left.merge.isRequired then
    match pending with
    | [] => .error op.mismatch
    | opener :: outer =>
        if opener.right.accepts op.left then .ok outer else .error (culprit opener op).mismatch
  else if op.right.merge.isRequired then .ok (op :: pending)
  else .ok pending

/-- Read some operators one after the other. -/
def nest (pending : List Operator) (ops : List Operator) : Except Error (List Operator) :=
  ops.foldlM nestStep pending

/-- No delimiter may wait for its partner at the end. -/
def unclosed : List Operator → Except Error Unit
  | [] => .ok ()
  | opener :: _ => .error opener.mismatch

theorem nest_cons (pending : List Operator) (op : Operator) (ops : List Operator) :
    nest pending (op :: ops) = (nestStep pending op).bind fun next => nest next ops :=
  rfl

theorem nest_append (pending first second : List Operator) :
    nest pending (first ++ second) =
      (nest pending first).bind fun next => nest next second := by
  simp [nest, bind]

variable {lexicon : Lexicon} {op : Operator} {pending : List Operator}

theorem nestStep_of_closing (closing : op.left.merge.isRequired = true) (opener : Operator) :
    nestStep (opener :: pending) op =
      if opener.right.accepts op.left then .ok pending
      else .error (culprit opener op).mismatch := by
  simp [nestStep, closing]

theorem nestStep_of_not_closing (notClosing : op.left.merge.isRequired = false) :
    nestStep pending op = .ok (if op.right.merge.isRequired then op :: pending else pending) := by
  unfold nestStep
  rw [notClosing, if_neg Bool.false_ne_true]
  split <;> rfl

/-- An operator that is no delimiter passes by. -/
theorem nestStep_of_not_isDelimiter (fits : op.Fits lexicon)
    (other : op.token.lexeme.isDelimiter = false) : nestStep pending op = .ok pending := by
  have notOpening : op.right.merge.isRequired = false := by
    rw [Bool.eq_false_iff, ne_eq, fits.right_isRequired_iff]
    rintro (lexeme_eq | lexeme_eq) <;> rw [lexeme_eq] at other <;> contradiction
  have notClosing : op.left.merge.isRequired = false := by
    rw [Bool.eq_false_iff, ne_eq, fits.left_isRequired_iff]
    rintro (lexeme_eq | lexeme_eq) <;> rw [lexeme_eq] at other <;> contradiction
  rw [nestStep_of_not_closing notClosing, notOpening, if_neg Bool.false_ne_true]

theorem Fits.mayStart_eq (fits : op.Fits lexicon) :
    op.mayStart = if op.left.merge.isRequired then .error op.mismatch else .ok () := by
  cases fits.shape <;> simp_all [mayStart, Merge.isRequired]

theorem Fits.mayEnd_eq (fits : op.Fits lexicon) :
    op.mayEnd = if op.right.merge.isRequired then .error op.mismatch else .ok () := by
  cases fits.shape <;> simp_all [mayEnd, Merge.isRequired]

/-! ## Open groups -/

section Engine

variable {α : Type} {stack placed : List (Frame Operator (Tree α Operator))}
  {current : Tree α Operator} {frame : Frame Operator (Tree α Operator)}

/-- The grammar of trees over operators. -/
abbrev treeGrammar : Grammar (Except Error) α Operator (Tree α Operator) :=
  Grammar.trees order mayStart mayEnd

/-- The delimiters of open groups that wait for their partners. -/
def waiting (stack : List (Frame Operator (Tree α Operator))) : List Operator :=
  (stack.map Frame.last).filter (·.right.merge.isRequired)

theorem waiting_cons (frame : Frame Operator (Tree α Operator))
    (stack : List (Frame Operator (Tree α Operator))) :
    waiting (frame :: stack) =
      if frame.last.right.merge.isRequired then frame.last :: waiting stack else waiting stack :=
  List.filter_cons

/-- The delimiters that wait are those of some open groups, which end with
operators of the lexicon. -/
structure Waits (lexicon : Lexicon) (pending : List Operator)
    (stack : List (Frame Operator (Tree α Operator))) : Prop where
  waiting_eq : waiting stack = pending
  fits : ∀ frame ∈ stack, frame.last.Fits lexicon

namespace Waits

theorem last_fits (waits : Waits lexicon pending (frame :: stack)) : frame.last.Fits lexicon :=
  waits.fits frame List.mem_cons_self

/-- A delimiter of the innermost group that waits is the innermost that waits. -/
theorem uncons (waits : Waits lexicon pending (frame :: stack))
    (required : frame.last.right.merge.isRequired = true) :
    ∃ outer, pending = frame.last :: outer ∧ Waits lexicon outer stack := by
  have waiting_eq := waits.waiting_eq
  rw [waiting_cons, required, if_pos rfl] at waiting_eq
  exact ⟨waiting stack, waiting_eq.symm, rfl,
    fun other member => waits.fits other (List.mem_cons_of_mem _ member)⟩

/-- A group without a delimiter that waits can be left out. -/
theorem tail (waits : Waits lexicon pending (frame :: stack))
    (notRequired : frame.last.right.merge.isRequired = false) :
    Waits lexicon pending stack := by
  have waiting_eq := waits.waiting_eq
  rw [waiting_cons, notRequired, if_neg Bool.false_ne_true] at waiting_eq
  exact ⟨waiting_eq, fun other member => waits.fits other (List.mem_cons_of_mem _ member)⟩

theorem cons (waits : Waits lexicon pending stack) (fits : frame.last.Fits lexicon) :
    Waits lexicon (if frame.last.right.merge.isRequired then frame.last :: pending else pending)
      (frame :: stack) := by
  constructor
  · rw [waiting_cons, waits.waiting_eq]
  · exact List.forall_mem_cons.mpr ⟨fits, waits.fits⟩

/-- A group that an operator starts waits where the operator does. -/
theorem begin (waits : Waits lexicon pending stack) (fits : op.Fits lexicon)
    (notClosing : op.left.merge.isRequired = false) (current : Tree α Operator) :
    Except.Agree (Waits lexicon) (nestStep pending op)
      (op.mayStart.map fun _ => .begin op current :: stack) := by
  rw [nestStep_of_not_closing notClosing, fits.mayStart_eq, notClosing]
  exact @cons lexicon _ _ _ (.begin op current) waits fits

end Waits

/-- An operator that the innermost group accepts ends the wait of its delimiter, or
waits itself. -/
theorem place_nest_of_accepts (fits : op.Fits lexicon)
    (waits : Waits lexicon pending (frame :: stack))
    (accepts : frame.last.right.accepts op.left = true) (current : Tree α Operator) :
    Except.Agree (Waits lexicon) (nestStep pending op)
      (treeGrammar.place op (frame :: stack) current) := by
  have required_eq := waits.last_fits.isRequired_eq_of_accepts fits accepts
  rw [Grammar.place_aggregate _ (order_of_accepts accepts)]
  cases closing : op.left.merge.isRequired with
  | true =>
      obtain ⟨outer, rfl, outerWaits⟩ := waits.uncons (required_eq.trans closing)
      rw [nestStep_of_closing closing, if_pos accepts]
      have extended := @Waits.cons lexicon _ _ _ (frame.extend op current) outerWaits fits
      have notWaiting : (frame.extend op current).last.right.merge.isRequired = false :=
        fits.right_isRequired_eq_false closing
      rw [notWaiting, if_neg Bool.false_ne_true] at extended
      exact extended
  | false =>
      rw [nestStep_of_not_closing closing]
      exact @Waits.cons lexicon _ _ _ (frame.extend op current)
        (waits.tail (required_eq.trans closing)) fits

/-- Placing an operator behind open groups succeeds or fails as reading it
behind the delimiters that wait does. -/
theorem place_nest (fits : op.Fits lexicon) (waits : Waits lexicon pending stack)
    (current : Tree α Operator) :
    Except.Agree (Waits lexicon) (nestStep pending op) (treeGrammar.place op stack current) := by
  induction stack generalizing pending current with
  | nil =>
      rw [Grammar.place_nil]
      cases closing : op.left.merge.isRequired with
      | false => exact waits.begin fits closing current
      | true =>
          obtain rfl : [] = pending := waits.waiting_eq
          change Except.Agree _ _ (Except.map _ op.mayStart)
          unfold nestStep
          rw [fits.mayStart_eq, closing]
          exact rfl
  | cons frame stack ih =>
      have frameRuled := waits.last_fits.rightRuled
      cases accepts : frame.last.right.accepts op.left with
      | true => exact place_nest_of_accepts fits waits accepts current
      | false =>
          cases open_eq : frame.last.right.merge.isRequired with
          | true =>
              obtain ⟨outer, rfl, _⟩ := waits.uncons open_eq
              cases closing : op.left.merge.isRequired with
              | true =>
                  rw [Grammar.place_error _ (order_of_required accepts open_eq closing),
                    nestStep_of_closing closing, accepts]
                  exact rfl
              | false =>
                  rw [Grammar.place_right _
                    (order_eq_right frameRuled fits.leftRuled accepts open_eq closing)]
                  exact waits.begin fits closing current
          | false =>
              obtain ⟨decision, decision_eq⟩ := exists_order_of_not_required frameRuled
                fits.leftRuled (by rw [open_eq, Bool.false_and])
              cases decision with
              | left =>
                  rw [Grammar.place_left _ decision_eq, trees_close]
                  exact ih (waits.tail open_eq) (frame.toTree current)
              | right =>
                  have closing : op.left.merge.isRequired = false := by
                    by_contra closing
                    rw [Bool.not_eq_false] at closing
                    rw [order_eq_left frameRuled fits.leftRuled accepts open_eq closing]
                      at decision_eq
                    cases decision_eq
                  rw [Grammar.place_right _ decision_eq]
                  exact waits.begin fits closing current
              | aggregate =>
                  rw [accepts_of_order_eq_aggregate decision_eq] at accepts
                  contradiction

/-! ## Sequences -/

/-- The operators of a sequence in order. -/
def operatorsOf : List (Element α Operator) → List Operator
  | [] => []
  | .operand _ :: rest => operatorsOf rest
  | .operator op :: rest => op :: operatorsOf rest

theorem operatorsOf_append (first second : List (Element α Operator)) :
    operatorsOf (first ++ second) = operatorsOf first ++ operatorsOf second := by
  induction first with
  | nil => rfl
  | cons element first ih => cases element <;> simp [operatorsOf, ih]

/-- Every operator of a sequence fits its lexeme. -/
def AllFit (lexicon : Lexicon) (elements : List (Element α Operator)) : Prop :=
  ∀ op ∈ operatorsOf elements, op.Fits lexicon

/-- A state behind an operand, whose delimiters wait. -/
def WaitsBehind (lexicon : Lexicon) (pending : List Operator)
    (state : State Operator (Tree α Operator)) : Prop :=
  ∃ stack current, state = .operatorDue stack current ∧ Waits lexicon pending stack

theorem read_pair (value : α) (op : Operator) (rest : List (Element α Operator)) :
    treeGrammar.read (.operandDue stack) (.operand value :: .operator op :: rest) =
      (treeGrammar.place op stack (.leaf value)).bind fun placed =>
        treeGrammar.read (.operandDue placed) rest := by
  rw [Grammar.read_cons, Grammar.step_operand]
  change Grammar.read _ (.operatorDue stack (.leaf value)) _ = _
  rw [Grammar.read_cons, Grammar.step_operator]
  cases treeGrammar.place op stack (.leaf value) <;> rfl

/-- Reading a sequence that alternates succeeds or fails as reading its operators
behind the delimiters that wait does. -/
theorem read_nest {elements : List (Element α Operator)} (alternates : Alternates elements)
    (fits : AllFit lexicon elements) (waits : Waits lexicon pending stack) :
    Except.Agree (WaitsBehind lexicon) (nest pending (operatorsOf elements))
      (treeGrammar.read (.operandDue stack) elements) := by
  induction elements using Alternates.induct generalizing pending stack with
  | case1 value => exact ⟨stack, .leaf value, rfl, waits⟩
  | case2 value op rest ih =>
      have allFit := List.forall_mem_cons.mp fits
      have placed := place_nest allFit.1 waits (.leaf value)
      rw [read_pair]
      apply placed.bind
      intro next placed _ nextWaits
      exact ih alternates allFit.2 nextWaits
  | case3 elements notSingle notPair =>
      rw [Alternates.eq_3 _ notSingle notPair] at alternates
      exact alternates.elim

/-- Ending behind open groups succeeds or fails as ending behind the delimiters
that wait does. -/
theorem closeAll_unclosed (waits : Waits lexicon pending stack) (current : Tree α Operator) :
    Except.Agree (fun _ _ => True) (unclosed pending) (treeGrammar.closeAll stack current) := by
  induction stack generalizing pending current with
  | nil =>
      obtain rfl : [] = pending := waits.waiting_eq
      exact trivial
  | cons frame stack ih =>
      rw [Grammar.closeAll_cons, trees_close]
      change Except.Agree _ _ (Except.bind frame.last.mayEnd _)
      rw [waits.last_fits.mayEnd_eq]
      cases open_eq : frame.last.right.merge.isRequired with
      | true =>
          obtain ⟨outer, rfl, _⟩ := waits.uncons open_eq
          exact rfl
      | false => exact ih (waits.tail open_eq) (frame.toTree current)

/-- Grouping a sequence that alternates succeeds or fails as the scan of its
operators does. -/
theorem group_nest {elements : List (Element α Operator)} (alternates : Alternates elements)
    (fits : AllFit lexicon elements) :
    Except.Agree (fun _ _ => True) ((nest [] (operatorsOf elements)).bind unclosed)
      (treeGrammar.group (elements.map .ok)) := by
  have started : Waits lexicon [] ([] : List (Frame Operator (Tree α Operator))) :=
    ⟨rfl, fun _ member => absurd member List.not_mem_nil⟩
  rw [Grammar.group_map_ok]
  apply (read_nest alternates fits started).bind
  rintro pending state - ⟨stack, current, rfl, waits⟩
  exact closeAll_unclosed waits current

end Engine

end Operator

end OperatorMarkup
