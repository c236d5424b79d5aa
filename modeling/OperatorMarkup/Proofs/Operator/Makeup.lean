import OperatorMarkup.Proofs.Grouping.Admission
import OperatorMarkup.Proofs.Operator.Balance

/-!
# The operators that make up a group

The operators of a group are two brackets, an indent and a dedent, a chain of operators with
one face, or operators of one text that leans on its operands.  A delimiter is never left
without its partner, since it may not start or end a group alone.
-/

namespace OperatorMarkup

namespace Operator

open Grouping

variable {lexicon : Lexicon} {op first left right : Operator} {operators : List Operator}

/-- The operators of a group. -/
inductive Makeup (lexicon : Lexicon) : List Operator → Prop
  /-- A bracket and its partner. -/
  | brackets {opener closer : Operator} (opener_eq : opener.token.lexeme = .opener)
      (closer_eq : closer.token.lexeme = .closer)
      (pairs : lexicon.Pairs opener.token.text closer.token.text) :
      Makeup lexicon [opener, closer]
  /-- An indent and the dedent that ends it. -/
  | indented {indent dedent : Operator} (indent_eq : indent.token.lexeme = .indent)
      (dedent_eq : dedent.token.lexeme = .dedent) : Makeup lexicon [indent, dedent]
  /-- Operators that show the same face on either side. -/
  | chain {operators : List Operator} (face : Face) (merge_eq : face.merge = .same)
      (each : ∀ op ∈ operators, op.left = face ∧ op.right = face) : Makeup lexicon operators
  /-- One operator before or behind its operand, or one on either side of it. -/
  | leaning {operators : List Operator} (text : String) (level : Bool)
      (each : ∀ op ∈ operators, op.token.lexeme = .operator ∧ op.token.text = text ∧
        op.token.isLineLevel = level) : Makeup lexicon operators

/-! ## Operators that join -/

/-- Where a tie goes, and so the whole face, follows from the priority. -/
theorem face_eq_of_same {face other : Face} (ruled : face.Ruled) (otherRuled : other.Ruled)
    (same : face.merge = .same) (otherSame : other.merge = .same) (text_eq : face.text = other.text)
    (priority_eq : face.priority = other.priority) : face = other := by
  have tie_eq : face.tie = other.tie := by rw [ruled.tie_eq, otherRuled.tie_eq, priority_eq]
  cases face
  cases other
  simp_all

/-- A chain goes on with the face that it starts with. -/
theorem chain_faces (fits : ∀ op ∈ first :: operators, op.Fits lexicon)
    (same : first.right.merge = .same)
    (fused : ∀ pair ∈ (first :: operators).zip operators, pair.1.right.accepts pair.2.left = true) :
    ∀ op ∈ first :: operators, op.left = first.right ∧ op.right = first.right := by
  induction operators generalizing first with
  | nil =>
      rw [List.forall_mem_singleton] at fits ⊢
      exact ⟨(fits.joining_of_right same).symm, rfl⟩
  | cons second operators ih =>
      rw [List.forall_mem_cons] at fits
      rw [List.zip_cons_cons, List.forall_mem_cons] at fused
      have secondFits := fits.2 second List.mem_cons_self
      rcases Face.accepts_cases fused.1 with ⟨-, second_eq, text_eq, priority_eq⟩ | ⟨_, _, opens, -⟩
      · have faces_eq : second.right = first.right := by
          rw [(secondFits.joining_of_left second_eq).1]
          exact (face_eq_of_same fits.1.rightRuled secondFits.leftRuled same second_eq text_eq
            priority_eq).symm
        have rest := ih fits.2 (faces_eq ▸ same) fused.2
        rw [faces_eq] at rest
        exact List.forall_mem_cons.mpr ⟨⟨(fits.1.joining_of_right same).symm, rfl⟩, rest⟩
      · rw [same] at opens
        contradiction

theorem Fits.left_merge_cases (fits : op.Fits lexicon)
    (other : op.token.lexeme.isDelimiter = false) :
    op.left.merge = .same ∧ op.right = op.left ∨ op.token.lexeme = .operator := by
  cases fits.shape with
  | joining _ right_eq merge_eq => exact .inl ⟨merge_eq, right_eq⟩
  | before lexeme_eq | behind lexeme_eq | alone lexeme_eq => exact .inr lexeme_eq
  | opener lexeme_eq | closer lexeme_eq | indent lexeme_eq | dedent lexeme_eq =>
      rw [lexeme_eq] at other
      contradiction

/-- A marker behind an operand stands within lines. -/
theorem Fits.isLineLevel_eq_false_of_closes (fits : op.Fits lexicon) {opener : String}
    (closes : op.left.merge = .closes opener false) : op.token.isLineLevel = false := by
  cases fits.shape <;> simp_all [Token.isLineLevel, Token.isLineBreak]

/-- An operator that joins with no other one is of no pair. -/
theorem makeup_singleton (fits : op.Fits lexicon) (starts : op.left.merge.isRequired = false)
    (ends : op.right.merge.isRequired = false) : Makeup lexicon [op] := by
  have other : op.token.lexeme.isDelimiter = false := by
    rw [Bool.eq_false_iff, ne_eq, fits.left_isRequired_iff] at starts
    rw [Bool.eq_false_iff, ne_eq, fits.right_isRequired_iff] at ends
    cases lexeme_eq : op.token.lexeme <;> simp_all [Lexeme.isDelimiter]
  rcases fits.left_merge_cases other with ⟨same, right_eq⟩ | lexeme_eq
  · exact .chain op.left same (List.forall_mem_singleton.mpr ⟨rfl, right_eq⟩)
  · exact .leaning op.token.text op.token.isLineLevel
      (List.forall_mem_singleton.mpr ⟨lexeme_eq, rfl, rfl⟩)

/-- An opening delimiter is followed by its partner. -/
theorem makeup_pair (leftFits : left.Fits lexicon) (rightFits : right.Fits lexicon)
    (joined : left.right.accepts right.left = true) {required required' : Bool}
    (opens : left.right.merge = .opens right.left.text required)
    (closes : right.left.merge = .closes left.right.text required') :
    Makeup lexicon [left, right] := by
  have needs := Fits.isRequired_eq_of_accepts leftFits rightFits joined
  rw [opens, closes] at needs
  cases required with
  | true =>
      have rightNeeds : right.left.merge.isRequired = true := by
        rw [closes]
        exact needs.symm
      have leftNeeds : left.right.merge.isRequired = true := by rw [opens]; rfl
      have waits : AllWait lexicon [left] := List.forall_mem_singleton.mpr ⟨leftFits, leftNeeds⟩
      have step_eq : nestStep [left] right = .ok [] := by
        rw [nestStep_of_closing rightNeeds, if_pos joined]
      obtain ⟨opener, pending_eq, -, kinds⟩ := nestStep_closes rightFits waits
        (rightFits.left_isRequired_iff.mp rightNeeds) step_eq
      obtain ⟨rfl, -⟩ := List.cons.inj pending_eq
      rcases kinds with ⟨opener_eq, closer_eq, pairs⟩ | ⟨indent_eq, dedent_eq⟩
      · exact .brackets opener_eq closer_eq pairs
      · exact .indented indent_eq dedent_eq
  | false =>
      obtain rfl : required' = false := needs.symm
      obtain ⟨left_eq, -, closer_eq⟩ := leftFits.opens_optional opens
      obtain ⟨right_eq, text_eq, -⟩ := rightFits.closes_optional closes
      refine .leaning left.token.text false (List.forall_mem_cons.mpr
        ⟨⟨left_eq, rfl, leftFits.isLineLevel_eq_false opens⟩, List.forall_mem_singleton.mpr
          ⟨right_eq, ?_, rightFits.isLineLevel_eq_false_of_closes closes⟩⟩)
      rw [← text_eq, closer_eq]

/-- An operator that is ended by another does not wait for a closing delimiter. -/
theorem right_isRequired_of_order_left (leftFits : left.Fits lexicon)
    (rightFits : right.Fits lexicon) (decision : order left right = .ok .left) :
    left.right.merge.isRequired = false := by
  cases needs : left.right.merge.isRequired with
  | false => rfl
  | true =>
      cases joined : left.right.accepts right.left with
      | true =>
          rw [order_of_accepts joined] at decision
          cases Except.ok.inj decision
      | false =>
          cases next : right.left.merge.isRequired with
          | true =>
              rw [order_of_required joined needs next] at decision
              contradiction
          | false =>
              rw [order_eq_right leftFits.rightRuled rightFits.leftRuled joined needs next]
                at decision
              cases Except.ok.inj decision

/-- Fused operators that may start and end a group make one up. -/
theorem makeup_of_fused (fits : ∀ op ∈ operators, op.Fits lexicon) (nonempty : operators ≠ [])
    (fused : ∀ pair ∈ operators.zip operators.tail, order pair.1 pair.2 = .ok .aggregate)
    (starts : ∀ first ∈ operators.head?, first.left.merge.isRequired = false)
    (ends : ∀ last ∈ operators.getLast?, last.right.merge.isRequired = false) :
    Makeup lexicon operators := by
  obtain ⟨first, rest, rfl⟩ := List.exists_cons_of_ne_nil nonempty
  have accepts : ∀ pair ∈ (first :: rest).zip rest, pair.1.right.accepts pair.2.left = true :=
    fun pair member => accepts_of_order_eq_aggregate (fused pair member)
  have firstFits := fits first List.mem_cons_self
  cases rest with
  | nil => exact makeup_singleton firstFits (starts first rfl) (ends first rfl)
  | cons second rest =>
      have joined := accepts (first, second) (by simp)
      rcases Face.accepts_cases joined with ⟨same, -⟩ | ⟨required, required', opens, closes⟩
      · exact .chain first.right same (chain_faces fits same accepts)
      · have secondFits := fits second (by simp)
        cases rest with
        | nil => exact makeup_pair firstFits secondFits joined opens closes
        | cons third rest =>
            have never := secondFits.right_never closes
            rcases Face.accepts_cases (accepts (second, third) (by simp)) with
              ⟨same, -⟩ | ⟨_, _, opens, -⟩
            · rw [never] at same
              contradiction
            · rw [never] at opens
              contradiction

/-! ## What a makeup tells -/

namespace Makeup

/-- Operators that are of no pair of delimiters have one text, and take lines as a whole or
not at all. -/
structure Plain (operators : List Operator) (text : String) (level : Bool) : Prop where
  other : ∀ op ∈ operators, op.token.lexeme.isDelimiter = false
  text_eq : ∀ op ∈ operators, op.token.text = text
  level_eq : ∀ op ∈ operators, op.token.isLineLevel = level

theorem plain_of_chain {face : Face} (fits : ∀ op ∈ operators, op.Fits lexicon)
    (merge_eq : face.merge = .same) (each : ∀ op ∈ operators, op.left = face ∧ op.right = face) :
    Plain operators face.text (decide (face.priority.band ∈ [10, 20, 22])) := by
  have joins : ∀ op ∈ operators, op.right = op.left ∧ op.left.text = op.token.text ∧
      op.token.isLineLevel = decide (op.left.priority.band ∈ [10, 20, 22]) := fun op member =>
    (fits op member).joining_of_left (by rw [(each op member).1, merge_eq])
  refine ⟨fun op member => ?_, fun op member => ?_, fun op member => ?_⟩
  · have left_eq := (each op member).1
    cases (fits op member).shape with
    | joining plain_eq => exact plain_eq
    | before lexeme_eq | behind lexeme_eq | alone lexeme_eq => rw [lexeme_eq]; rfl
    | _ => simp_all
  · rw [← (joins op member).2.1, (each op member).1]
  · rw [(joins op member).2.2, (each op member).1]

theorem plain_of_leaning {text : String} {level : Bool}
    (each : ∀ op ∈ operators, op.token.lexeme = .operator ∧ op.token.text = text ∧
      op.token.isLineLevel = level) : Plain operators text level := by
  refine ⟨fun op member => ?_, fun op member => (each op member).2.1,
    fun op member => (each op member).2.2⟩
  rw [(each op member).1]
  rfl

end Makeup

end Operator

end OperatorMarkup
