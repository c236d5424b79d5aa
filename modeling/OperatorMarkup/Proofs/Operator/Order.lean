import OperatorMarkup.Operator.Order
import OperatorMarkup.Proofs.Token.Fit
import Mathlib.Tactic.ByContra

/-!
# The order of operators is complete

Bands decide ties: the faces of one band all lean to the same side, and those
that lean to neither belong to delimiters that need their partners.  So two
operators that bind equally always have an order, or else fail to pair.
-/

namespace OperatorMarkup

/-- The side that wins between two faces of a band. -/
def Priority.bandTie (band : Nat) : Tie :=
  if band ≤ 1 then .neither
  else if band ∈ [100, 101, 110, 300, 301, 310] then .right
  else .left

/-- The tie of a face and whether it needs a partner follow from its band. -/
structure Face.Ruled (face : Face) : Prop where
  tie_eq : face.tie = Priority.bandTie face.priority.band
  required_eq : face.merge.isRequired = decide (face.priority.band ≤ 1)

namespace Operator

theorem immediate_ruled (text : String) : (Face.immediate text).Ruled :=
  ⟨rfl, rfl⟩

theorem marker_tie (length : Nat) :
    Priority.bandTie (Priority.marker length).band = .left ∧
      ¬ (Priority.marker length).band ≤ 1 := by
  have low : 91 ≤ (Priority.marker length).band := Nat.le_max_right _ _
  have high : (Priority.marker length).band ≤ 99 := Nat.max_le.mpr ⟨Nat.sub_le _ _, by decide⟩
  generalize (Priority.marker length).band = band at low high
  constructor
  · simp only [Priority.bandTie, List.mem_cons, List.not_mem_nil, or_false]
    rw [if_neg (by omega), if_neg (by omega)]
  · omega

theorem lineBreakPriority_tie (token : Token) :
    Priority.bandTie (lineBreakPriority token).band = .left ∧
      ¬ (lineBreakPriority token).band ≤ 1 := by
  rw [lineBreakPriority]
  split <;> exact ⟨rfl, by decide⟩

theorem juxtapositionPriority_tie (token : Token) :
    Priority.bandTie (juxtapositionPriority token).band = .left ∧
      ¬ (juxtapositionPriority token).band ≤ 1 := by
  rw [juxtapositionPriority]
  split
  · exact lineBreakPriority_tie token
  · split <;> exact ⟨rfl, by decide⟩

theorem separatorPriority_tie (token : Token) :
    Priority.bandTie (separatorPriority token).band = .right ∧
      ¬ (separatorPriority token).band ≤ 1 := by
  rw [separatorPriority]
  split <;> exact ⟨rfl, by decide⟩

/-- A face that joins with faces of its own text is ruled by the tie of its
band. -/
theorem same_ruled {text : String} {priority : Priority} {tie : Tie}
    (decided : Priority.bandTie priority.band = tie ∧ ¬ priority.band ≤ 1) :
    (⟨text, priority, tie, .same⟩ : Face).Ruled :=
  ⟨decided.1.symm, by simp [Merge.isRequired, decided.2]⟩

theorem lineFaces_ruled (token : Token) (fixity : Fixity) :
    (lineFaces token fixity).1.Ruled ∧ (lineFaces token fixity).2.Ruled := by
  cases fixity <;> exact ⟨⟨rfl, rfl⟩, ⟨rfl, rfl⟩⟩

theorem inlineFaces_ruled (token : Token) (fixity : Fixity) :
    (inlineFaces token fixity).1.Ruled ∧ (inlineFaces token fixity).2.Ruled := by
  have marker := marker_tie token.text.length
  have joining : Priority.bandTie
        (if token.isSpaced then Priority.spacedOperator else .operator).band = .right ∧
      ¬ (if token.isSpaced then Priority.spacedOperator else .operator).band ≤ 1 := by
    split <;> exact ⟨rfl, by decide⟩
  cases fixity with
  | prefixOp =>
      constructor
      · exact immediate_ruled _
      · simp only [inlineFaces]
        split
        · exact ⟨rfl, rfl⟩
        · exact ⟨marker.1.symm, by simp [Merge.isRequired, marker.2]⟩
  | suffixOp =>
      constructor
      · simp only [inlineFaces]
        split
        · exact ⟨rfl, rfl⟩
        · exact ⟨marker.1.symm, by simp [Merge.isRequired, marker.2]⟩
      · exact immediate_ruled _
  | infixOp => exact ⟨same_ruled joining, same_ruled joining⟩
  | ambiguous => exact ⟨same_ruled joining, same_ruled joining⟩

/-- Both faces of every operator are ruled by their bands. -/
theorem ofToken_ruled (lexicon : Lexicon) (token : Token) :
    (ofToken lexicon token).left.Ruled ∧ (ofToken lexicon token).right.Ruled := by
  simp only [ofToken, faces]
  split
  · exact ⟨immediate_ruled _, rfl, rfl⟩
  · exact ⟨⟨rfl, rfl⟩, immediate_ruled _⟩
  · exact ⟨⟨rfl, rfl⟩, rfl, rfl⟩
  · exact ⟨⟨rfl, rfl⟩, immediate_ruled _⟩
  · have decided := lineBreakPriority_tie token
    exact ⟨same_ruled decided, same_ruled decided⟩
  · have decided := juxtapositionPriority_tie token
    exact ⟨same_ruled decided, same_ruled decided⟩
  · have decided := separatorPriority_tie token
    exact ⟨same_ruled decided, same_ruled decided⟩
  all_goals
    split
    · exact lineFaces_ruled token _
    · exact inlineFaces_ruled token _

/-! ## Decisions -/

variable {left right : Operator}

theorem order_of_accepts (accepts : left.right.accepts right.left = true) :
    order left right = .ok .aggregate := by
  rw [order, if_pos accepts]

theorem accepts_of_order_eq_aggregate (decision : order left right = .ok .aggregate) :
    left.right.accepts right.left = true := by
  by_contra refused
  rw [order, if_neg refused] at decision
  split at decision
  · cases decision
  · split at decision
    · cases decision
    · split at decision
      · cases decision
      · split at decision <;> cases decision

/-- Two delimiters that need partners and do not pair are a mismatch. -/
theorem order_of_required (refused : left.right.accepts right.left = false)
    (pending : left.right.merge.isRequired = true) (next : right.left.merge.isRequired = true) :
    order left right = .error (culprit left right).mismatch := by
  simp [order, refused, pending, next]

/-- Faces ruled by their bands that are not both required have an order. -/
theorem exists_order_of_not_required (leftRuled : left.right.Ruled) (rightRuled : right.left.Ruled)
    (optional : (left.right.merge.isRequired && right.left.merge.isRequired) = false) :
    ∃ decision, order left right = .ok decision := by
  by_cases accepts : left.right.accepts right.left = true
  · exact ⟨_, order_of_accepts accepts⟩
  · simp only [order, accepts, optional, Bool.false_eq_true, if_false]
    by_cases looser : right.left.priority < left.right.priority
    · exact ⟨.left, if_pos looser⟩
    · by_cases tighter : left.right.priority < right.left.priority
      · exact ⟨.right, by rw [if_neg looser, if_pos tighter]⟩
      · rw [if_neg looser, if_neg tighter]
        have equal : left.right.priority = right.left.priority := by
          rcases Priority.lt_trichotomy left.right.priority right.left.priority with
            less | equal | more
          · exact absurd less tighter
          · exact equal
          · exact absurd more looser
        have loose : ¬ right.left.priority.band ≤ 1 := by
          intro low
          simp [leftRuled.required_eq, rightRuled.required_eq, equal, low] at optional
        rw [leftRuled.tie_eq, rightRuled.tie_eq, equal, Priority.bandTie, if_neg loose]
        by_cases leansRight : right.left.priority.band ∈ [100, 101, 110, 300, 301, 310]
        · rw [if_pos leansRight]
          exact ⟨.right, rfl⟩
        · rw [if_neg leansRight]
          exact ⟨.left, rfl⟩

/-- A face that needs no partner is closed by one that does. -/
theorem order_eq_left (leftRuled : left.right.Ruled) (rightRuled : right.left.Ruled)
    (refused : left.right.accepts right.left = false)
    (pending : left.right.merge.isRequired = false)
    (next : right.left.merge.isRequired = true) :
    order left right = .ok .left := by
  have low : right.left.priority.band ≤ 1 := by simpa [rightRuled.required_eq] using next
  have high : ¬ left.right.priority.band ≤ 1 := by simpa [leftRuled.required_eq] using pending
  have looser : right.left.priority < left.right.priority :=
    (Priority.lt_def _ _).mpr (.inl (by omega))
  simp [order, refused, pending, looser]

/-- A face that needs a partner stays open before one that needs none. -/
theorem order_eq_right (leftRuled : left.right.Ruled) (rightRuled : right.left.Ruled)
    (refused : left.right.accepts right.left = false)
    (pending : left.right.merge.isRequired = true)
    (next : right.left.merge.isRequired = false) :
    order left right = .ok .right := by
  have low : left.right.priority.band ≤ 1 := by simpa [leftRuled.required_eq] using pending
  have high : ¬ right.left.priority.band ≤ 1 := by simpa [rightRuled.required_eq] using next
  have tighter : left.right.priority < right.left.priority :=
    (Priority.lt_def _ _).mpr (.inl (by omega))
  have notLooser : ¬ right.left.priority < left.right.priority := by
    intro looser
    rcases (Priority.lt_def _ _).mp looser with less | ⟨equal, _⟩ <;> omega
  simp [order, refused, next, tighter, notLooser]

/-- Whatever two operators are, they have an order or are delimiters that do not
pair. -/
theorem order_cases (leftRuled : left.right.Ruled) (rightRuled : right.left.Ruled) :
    (∃ decision, order left right = .ok decision) ∨
      order left right = .error (culprit left right).mismatch := by
  cases required : left.right.merge.isRequired && right.left.merge.isRequired with
  | false => exact .inl (exists_order_of_not_required leftRuled rightRuled required)
  | true =>
      rw [Bool.and_eq_true] at required
      cases accepts : left.right.accepts right.left with
      | true => exact .inl ⟨_, order_of_accepts accepts⟩
      | false => exact .inr (order_of_required accepts required.1 required.2)

end Operator

end OperatorMarkup
