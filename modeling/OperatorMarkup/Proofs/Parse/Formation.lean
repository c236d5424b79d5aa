import OperatorMarkup.Proofs.Grouping.Admission
import OperatorMarkup.Proofs.Operator.Binding
import OperatorMarkup.Proofs.Operator.Makeup
import OperatorMarkup.Proofs.Parse.Acceptance
import OperatorMarkup.Proofs.Parse.Isolation
import OperatorMarkup.Proofs.Parse.RoundTrip
import OperatorMarkup.Proofs.Token.Gaps

/-!
# How the groups of a text are formed

The place of a group in the token stream tells what its operands are at the edges.  Where an
operator lacks an operand a void one is, and binds to that operator alone; nothing is left out
where lines or operands side by side are joined, and what follows such a joint is offered the
gap that the joint measures.
-/

namespace OperatorMarkup

open Grouping Grouping.Tree Operator

/-- The token of an element. -/
def Element.token : Element Token Operator → Token
  | .operand token => token
  | .operator op => op.token

variable {lexicon : Lexicon} {source : Source} {token : Token} {left right op : Operator}

/-! ## Operators that lack an operand -/

namespace Operator

/-- An operator that leads an operand takes the void one before it. -/
theorem left_immediate (fits : token.Fits lexicon) (leads : token.kind = .operator .prefixOp) :
    ∃ text, (ofToken lexicon token).left = .immediate text := by
  have allowed := fits.allowed
  rw [leads] at allowed
  cases lexeme_eq : token.lexeme <;> rw [lexeme_eq] at allowed <;>
    simp [Lexeme.Allows] at allowed
  · cases line : token.lineOperator <;>
      exact ⟨token.text, by
        simp [ofToken, faces, lexeme_eq, line, leads, Kind.fixity?, lineFaces, inlineFaces]⟩
  · exact ⟨token.text, by simp [ofToken, faces, lexeme_eq]⟩

/-- An operator that trails an operand takes the void one behind it. -/
theorem right_immediate (fits : token.Fits lexicon) (trails : token.kind = .operator .suffixOp) :
    ∃ text, (ofToken lexicon token).right = .immediate text := by
  have allowed := fits.allowed
  rw [trails] at allowed
  cases lexeme_eq : token.lexeme <;> rw [lexeme_eq] at allowed <;>
    simp [Lexeme.Allows] at allowed
  · cases line : token.lineOperator <;>
      exact ⟨token.text, by
        simp [ofToken, faces, lexeme_eq, line, trails, Kind.fixity?, lineFaces, inlineFaces]⟩
  · exact ⟨token.text, by simp [ofToken, faces, lexeme_eq]⟩
  · exact ⟨dedentText, by simp [ofToken, faces, lexeme_eq]⟩

theorem order_of_leads (leftFits : left.Fits lexicon) (rightFits : right.Fits lexicon)
    (notTrailing : left.token.kind ≠ .operator .suffixOp)
    (leads : right.token.kind = .operator .prefixOp) : order left right = .ok .right := by
  obtain ⟨text, face_eq⟩ := left_immediate rightFits.token leads
  rw [← rightFits.eq] at face_eq
  refine order_of_immediate_left ?_ face_eq
  rw [leftFits.eq]
  exact ofToken_right_bounded leftFits.token fun role_eq =>
    notTrailing (Kind.eq_of_role_behind role_eq)

theorem order_of_trails (leftFits : left.Fits lexicon) (rightFits : right.Fits lexicon)
    (trails : left.token.kind = .operator .suffixOp) : order left right = .ok .left := by
  obtain ⟨text, face_eq⟩ := right_immediate leftFits.token trails
  rw [← leftFits.eq] at face_eq
  refine order_of_immediate_right face_eq ?_
  rw [rightFits.eq]
  exact ofToken_left_bounded lexicon right.token

/-- A line end binds looser than a separator. -/
theorem lineBreak_lt_separator (lineBreak : left.token.lexeme = .lineBreak)
    (separator : right.token.lexeme = .separator) (leftFits : left.Fits lexicon)
    (rightFits : right.Fits lexicon) : left.left.priority < right.left.priority := by
  have leftBand : left.left.priority.band ≤ 22 := by
    rw [leftFits.eq]
    simp only [ofToken, faces, lineBreak, lineBreakPriority]
    split <;> decide
  have rightBand : 100 ≤ right.left.priority.band := by
    rw [rightFits.eq]
    simp only [ofToken, faces, separator, separatorPriority]
    split <;> decide
  exact .inl (by omega)

theorem Fits.joins (fits : op.Fits lexicon)
    (lexemes : op.token.lexeme ∈ [Lexeme.separator, .lineBreak, .juxtaposition]) : op.Joins := by
  simp only [List.mem_cons, List.not_mem_nil, or_false] at lexemes
  rw [fits.eq]
  have line := fun alone => (fits.token.line_operator alone).1
  refine ofToken_joins lexicon ⟨?_, by simp [lexemes], line⟩
  rcases lexemes with lexeme_eq | lexeme_eq | lexeme_eq <;> exact fits.token.allows lexeme_eq

end Operator

/-! ## A sequence and its tokens -/

/-- The tokens of a text, of which operands are left out for the operators that lack them and
follow joints with the gaps that these measure. -/
structure Arranged (lexicon : Lexicon) (source : Source) (tokens : List Token) : Prop where
  fits : ∀ token ∈ tokens, token.Fits lexicon
  attached : Attached tokens
  level : ∀ token ∈ tokens, token.Level
  tiled : Extent.Tiled lexicon source 0 tokens source.size
  offered_eq : ∀ front joint operand back, tokens = front ++ joint :: operand :: back →
    joint.isJoint = true → operand.isOperand = true →
      ((Node.ofToken source operand).offered source).1 = joint.after

theorem Steps.arranged (steps : Steps lexicon source) (complete : steps.failure = none)
    (blamed : blame lexicon (brackets lexicon source) = none) :
    Arranged lexicon source steps.written where
  fits := steps.written_fits complete
  attached := steps.attached complete blamed
  level := steps.written_level complete
  tiled := (steps.widens complete).tiled
  offered_eq _ _ _ _ written_eq isJoint isOperand :=
    steps.offered_eq complete blamed written_eq isJoint isOperand

theorem Token.token_element (token : Token) : (token.element lexicon).token = token := by
  rw [Token.element]
  split <;> rfl

/-- A sequence that comes from the tokens of a text. -/
structure Sequence (lexicon : Lexicon) (source : Source) (tokens : List Token)
    (elements : List (Element Token Operator)) : Prop where
  arranged : Arranged lexicon source tokens
  elements_eq : elements = tokens.map (Token.element lexicon)

namespace Sequence

variable {tokens : List Token} {elements front back : List (Element Token Operator)}

theorem tokens_eq (sequence : Sequence lexicon source tokens elements) :
    tokens = elements.map Element.token := by
  rw [sequence.elements_eq, List.map_map]
  exact ((List.map_congr_left fun token _ => token.token_element).trans (List.map_id tokens)).symm

theorem operator (sequence : Sequence lexicon source tokens elements)
    (member : .operator op ∈ elements) :
    op.Fits lexicon ∧ op.token.isOperand = false ∧ op.token.Level := by
  rw [sequence.elements_eq] at member
  obtain ⟨token, tokenMember, element_eq⟩ := List.mem_map.mp member
  obtain rfl := eq_of_element_eq_operator element_eq
  refine ⟨⟨sequence.arranged.fits token tokenMember, rfl⟩, ?_,
    sequence.arranged.level token tokenMember⟩
  rw [Token.element] at element_eq
  split at element_eq
  · contradiction
  · next turn => exact Bool.not_eq_true _ ▸ turn

theorem operand (sequence : Sequence lexicon source tokens elements)
    (member : .operand token ∈ elements) : token.isOperand = true := by
  rw [sequence.elements_eq] at member
  obtain ⟨other, _, element_eq⟩ := List.mem_map.mp member
  rw [Token.element] at element_eq
  split at element_eq
  · next turn => exact Element.operand.inj element_eq ▸ turn
  · contradiction

/-- An element with the token of an operator is that operator. -/
theorem eq_operator {element : Element Token Operator}
    (sequence : Sequence lexicon source tokens elements) (member : element ∈ elements)
    (operator : element.token.isOperand = false) : ∃ op, element = .operator op := by
  cases element with
  | operand token =>
      rw [Element.token, sequence.operand member] at operator
      contradiction
  | operator op => exact ⟨op, rfl⟩

/-- Before an operator that leads an operand a void one stands, which no operator before it
trails. -/
theorem leads (sequence : Sequence lexicon source tokens elements)
    (split_eq : elements = front ++ .operand token :: .operator op :: back)
    (leads : op.token.kind = .operator .prefixOp) :
    token.kind = .void ∧
      ∀ left, front.getLast? = some (.operator left) → order left op = .ok .right := by
  have tokens_eq := sequence.tokens_eq
  rw [split_eq, List.map_append, List.map_cons, List.map_cons] at tokens_eq
  obtain ⟨void, notTrailing⟩ := sequence.arranged.attached.leads _ _ _ _ tokens_eq leads
  refine ⟨void, fun left last_eq => ?_⟩
  have leftMember : .operator left ∈ elements := by
    rw [split_eq]
    exact List.mem_append_left _ (List.mem_of_getLast? last_eq)
  apply order_of_leads (sequence.operator leftMember).1
    (sequence.operator (by simp [split_eq])).1 _ leads
  apply notTrailing
  rw [List.getLast?_map, last_eq]
  rfl

/-- Behind an operator that trails an operand a void one stands. -/
theorem trails (sequence : Sequence lexicon source tokens elements)
    (split_eq : elements = front ++ .operator op :: .operand token :: back)
    (trails : op.token.kind = .operator .suffixOp) :
    token.kind = .void ∧ ∀ right, .operator right ∈ elements → order op right = .ok .left := by
  have tokens_eq := sequence.tokens_eq
  rw [split_eq, List.map_append, List.map_cons, List.map_cons] at tokens_eq
  refine ⟨sequence.arranged.attached.trails _ _ _ _ tokens_eq trails, fun right member => ?_⟩
  exact order_of_trails (sequence.operator (by simp [split_eq])).1 (sequence.operator member).1
    trails

/-- An operand that is left out before a joint is that of an operator before it, which ends
before the joint. -/
theorem beforeJoint (sequence : Sequence lexicon source tokens elements)
    (split_eq : elements = front ++ .operand token :: .operator op :: back)
    (isJoint : op.token.isJoint = true) (isVoid : token.kind = .void) :
    ∃ left, front.getLast? = some (.operator left) ∧ order left op = .ok .left := by
  have tokens_eq := sequence.tokens_eq
  rw [split_eq, List.map_append, List.map_cons, List.map_cons] at tokens_eq
  obtain ⟨others, other, front_eq, kinds⟩ :=
    sequence.arranged.attached.beforeJoint _ _ _ _ tokens_eq isJoint isVoid
  obtain ⟨before, last, rfl, rfl, last_eq⟩ := List.map_eq_append_iff.mp front_eq
  obtain ⟨element, none, rfl, rfl, none_eq⟩ := List.map_eq_cons_iff.mp last_eq
  obtain rfl := List.map_eq_nil_iff.mp none_eq
  have member : element ∈ elements := by simp [split_eq]
  have fits := sequence.arranged.fits element.token (by
    rw [sequence.tokens_eq]
    exact List.mem_map_of_mem member)
  have turn : element.token.isOperand = false := by
    rcases kinds with trails | ⟨-, separator⟩
    · rw [Token.isOperand, trails]
      rfl
    · exact (fits.of_leads (.inr separator)).2
  obtain ⟨left, rfl⟩ := sequence.eq_operator member turn
  refine ⟨left, List.getLast?_concat, ?_⟩
  have leftFits := (sequence.operator member).1
  have opMember : .operator op ∈ elements := by simp [split_eq]
  have opFits := (sequence.operator opMember).1
  rcases kinds with trails | ⟨lineBreak, separator⟩
  · exact order_of_trails leftFits opFits trails
  · have opJoins := opFits.joins (by simp [show op.token.lexeme = _ from lineBreak])
    have leftJoins := leftFits.joins (by
      simp [show left.token.lexeme = _ from separator])
    exact leftJoins.order_of_looser opJoins
      (lineBreak_lt_separator lineBreak separator opFits leftFits)

/-- An operand that is left out behind a joint is that of an operator behind it, which starts
inside the joint. -/
theorem behindJoint (sequence : Sequence lexicon source tokens elements)
    (split_eq : elements = front ++ .operator op :: .operand token :: back)
    (isJoint : op.token.isJoint = true) (isVoid : token.kind = .void) :
    ∃ right, back.head? = some (.operator right) ∧ order op right = .ok .right ∧
      right.token.isJoint = false := by
  have tokens_eq := sequence.tokens_eq
  rw [split_eq, List.map_append, List.map_cons, List.map_cons] at tokens_eq
  obtain ⟨other, others, back_eq, kinds⟩ :=
    sequence.arranged.attached.behindJoint _ _ _ _ tokens_eq isJoint isVoid
  obtain ⟨element, behind, rfl, rfl, -⟩ := List.map_eq_cons_iff.mp back_eq
  have member : element ∈ elements := by simp [split_eq]
  have fits := sequence.arranged.fits element.token (by
    rw [sequence.tokens_eq]
    exact List.mem_map_of_mem member)
  have text := fits.of_leads (kinds.imp_right And.right)
  obtain ⟨right, rfl⟩ := sequence.eq_operator member text.2
  have rightFits := (sequence.operator member).1
  have opMember : .operator op ∈ elements := by simp [split_eq]
  have opFits := (sequence.operator opMember).1
  refine ⟨right, rfl, ?_, ?_⟩
  · rcases kinds with leads | ⟨lineBreak, separator⟩
    · apply order_of_leads opFits rightFits _ leads
      rw [(opFits.token.of_isJoint isJoint).2]
      nofun
    · have opJoins := opFits.joins (by simp [show op.token.lexeme = _ from lineBreak])
      have rightJoins := rightFits.joins (by
        simp [show right.token.lexeme = _ from separator])
      exact opJoins.order_of_tighter rightJoins
        (lineBreak_lt_separator lineBreak separator opFits rightFits)
  · cases joint : right.token.isJoint with
    | false => rfl
    | true =>
        have putIn := (rightFits.token.of_isJoint joint).1
        rw [show right.token.lexeme.isSynthetic = false from text.1] at putIn
        contradiction

end Sequence

/-! ## Groups -/

/-- What is known of a group of a text, given its operators and its operands. -/
structure Formed (lexicon : Lexicon) (source : Source) (operators : List Operator)
    (operands : List (Tree Token Operator)) : Prop where
  fits : ∀ op ∈ operators, op.Fits lexicon
  turns : ∀ op ∈ operators, op.token.isOperand = false
  level : ∀ op ∈ operators, op.token.Level
  makeup : Makeup lexicon operators
  ordered : (group operators operands).Ordered order
  leads : ∀ first ∈ operators.head?, first.token.kind = .operator .prefixOp →
    ∃ token, operands.head? = some (.leaf token) ∧ token.kind = .void
  trails : ∀ last ∈ operators.getLast?, last.token.kind = .operator .suffixOp →
    ∃ token, operands.getLast? = some (.leaf token) ∧ token.kind = .void
  joined : (∀ op ∈ operators, op.token.isJoint = true) →
    ∀ token, .leaf token ∈ operands → token.kind ≠ .void
  offers : ∀ link ∈ operators.zip operands.tail, link.1.token.isJoint = true →
    ∀ token, link.2.elements.head? = some (.operand token) →
      ((Node.ofToken source token).offered source).1 = link.1.token.after
  laidOut : ∀ parts, buildAll (Node.nodeGrammar source) operands = .ok parts →
    ∃ start stop, Node.LaidOut lexicon source start operators parts stop

namespace Sequence

variable {tokens : List Token} {elements before behind : List (Element Token Operator)}
  {operators : List Operator} {operands : List (Tree Token Operator)}

/-- A group starts and ends with operators that need no partner beyond it. -/
theorem makeup (fits : ∀ op ∈ operators, op.Fits lexicon)
    (admitted : Admitted order mayStart mayEnd (Operator.Fits lexicon) operators)
    (ordered : (group operators operands).Ordered order) : Makeup lexicon operators := by
  obtain _ | ⟨nonempty, _, fused⟩ := ordered
  apply makeup_of_fused fits nonempty fused
  · intro first member
    have allowed := admitted.starts first member
    rw [(fits first (List.mem_of_head? member)).mayStart_eq] at allowed
    split at allowed
    · contradiction
    · next free => exact Bool.not_eq_true _ ▸ free
  · intro last member
    have lastFits := fits last (List.mem_of_getLast? member)
    rcases admitted.ends last member with allowed | ⟨next, nextFits, decision⟩
    · rw [lastFits.mayEnd_eq] at allowed
      split at allowed
      · contradiction
      · next free => exact Bool.not_eq_true _ ▸ free
    · exact right_isRequired_of_order_left lastFits nextFits decision

theorem group_leads (sequence : Sequence lexicon source tokens elements)
    (stands : Stands order before (group operators operands) behind)
    (elements_eq : elements = before ++ elementsOf operators operands ++ behind) :
    ∀ first ∈ operators.head?, first.token.kind = .operator .prefixOp →
      ∃ token, operands.head? = some (.leaf token) ∧ token.kind = .void := by
  intro first member leads
  obtain ⟨rest, rfl⟩ := List.head?_eq_some_iff.mp member
  obtain ⟨operand, operands, rfl⟩ := List.exists_cons_of_length_eq_add_one stands.ordered.arity
  rw [elementsOf_cons] at elements_eq
  rcases stands.first_operand with ⟨token, rfl, -⟩ | ⟨front, left, token, operand_eq, ends⟩
  · rw [elements_leaf, List.append_assoc] at elements_eq
    exact ⟨token, rfl, (sequence.leads elements_eq leads).1⟩
  · have split_eq : elements = before ++ front ++ [.operator left] ++ .operand token ::
        .operator first :: (elementsOf rest operands ++ behind) := by
      rw [elements_eq, operand_eq]
      simp
    have starts := (sequence.leads split_eq leads).2 left List.getLast?_concat
    rw [ends] at starts
    cases Except.ok.inj starts

theorem group_trails (sequence : Sequence lexicon source tokens elements)
    (stands : Stands order before (group operators operands) behind)
    (elements_eq : elements = before ++ elementsOf operators operands ++ behind) :
    ∀ last ∈ operators.getLast?, last.token.kind = .operator .suffixOp →
      ∃ token, operands.getLast? = some (.leaf token) ∧ token.kind = .void := by
  intro last member trails
  obtain ⟨rest, rfl⟩ := List.getLast?_eq_some_iff.mp member
  obtain ⟨front, operand, rfl⟩ : ∃ front operand, operands = front ++ [operand] :=
    ⟨_, _, (List.dropLast_concat_getLast (by rintro rfl; simpa using stands.ordered.arity)).symm⟩
  have front_length : front.length = (rest ++ [last]).length := by
    simpa using stands.ordered.arity
  obtain ⟨first, first_eq⟩ :=
    List.getLast?_eq_some_iff.mp (getLast?_elementsOf front_length before)
  have elements_eq : elements =
      first ++ .operator last :: (operand.elements ++ behind) := by
    rw [elements_eq, elementsOf_append_operand front_length, ← List.append_assoc, first_eq]
    simp only [List.append_assoc, List.cons_append, List.nil_append]
  rcases stands.last_operand with ⟨token, rfl, -⟩ | ⟨token, right, back, operand_eq, starts⟩
  · exact ⟨token, by simp, (sequence.trails elements_eq trails).1⟩
  · rw [operand_eq] at elements_eq
    have ends := (sequence.trails elements_eq trails).2 right (by simp [elements_eq])
    rw [starts] at ends
    cases Except.ok.inj ends

/-- Where all operators of a group are joints, no operand of it is left out. -/
theorem group_joined (sequence : Sequence lexicon source tokens elements)
    (stands : Stands order before (group operators operands) behind)
    (elements_eq : elements = before ++ elementsOf operators operands ++ behind)
    (joints : ∀ op ∈ operators, op.token.isJoint = true) :
    ∀ token, .leaf token ∈ operands → token.kind ≠ .void := by
  intro token member isVoid
  obtain ⟨first, second, front, back, rfl, rfl, front_length, back_length⟩ :=
    exists_around stands.ordered.arity member
  have placed := stands.of_operand front_length back_length
  rw [elementsOf_around front_length back_length, elements_leaf] at elements_eq
  cases second with
  | cons next second =>
      -- The operand before a joint is that of an operator which ends there.
      obtain ⟨operand, back, rfl⟩ := List.exists_cons_of_length_eq_add_one back_length
      have split_eq : elements = before ++ elementsOf first front ++ .operand token ::
          .operator next :: (operand.elements ++ linksOf second back ++ behind) := by
        rw [elements_eq]
        simp [linksOf]
      obtain ⟨left, last_eq, ends⟩ := sequence.beforeJoint split_eq
        (joints next (by simp)) isVoid
      rcases List.eq_nil_or_concat first with rfl | ⟨first, last, rfl⟩
      · obtain rfl := List.eq_nil_of_length_eq_zero front_length
        have starts := stands.starts left (by simpa [elementsOf] using last_eq) _
          List.mem_cons_self next rfl
        rw [ends] at starts
        cases Except.ok.inj starts
      · rw [List.concat_eq_append] at *
        rw [getLast?_elementsOf front_length] at last_eq
        obtain rfl := Element.operator.inj (Option.some.inj last_eq)
        have joins := stands.ordered.fused_between
        rw [ends] at joins
        cases Except.ok.inj joins
  | nil =>
      -- The operand behind the last joint is that of an operator which starts there.
      obtain rfl := List.eq_nil_of_length_eq_zero back_length
      obtain ⟨first, last, rfl⟩ : ∃ rest last, first = rest ++ [last] :=
        ⟨_, _, (List.dropLast_concat_getLast (by simpa using stands.ordered.nonempty)).symm⟩
      obtain ⟨others, others_eq⟩ :=
        List.getLast?_eq_some_iff.mp (getLast?_elementsOf front_length before)
      have split_eq : elements = others ++ .operator last :: .operand token :: behind := by
        rw [elements_eq, ← List.append_assoc, ← List.append_assoc, others_eq]
        simp [linksOf]
      obtain ⟨right, head_eq, starts, -⟩ := sequence.behindJoint split_eq
        (joints last (by simp)) isVoid
      have ends := stands.ends right head_eq _ List.mem_cons_self last (by simp)
      rw [starts] at ends
      cases Except.ok.inj ends

/-- An operand behind a joint is offered the gap that the joint measures. -/
theorem group_offers (sequence : Sequence lexicon source tokens elements)
    (arity : operands.length = operators.length + 1)
    (elements_eq : elements = before ++ elementsOf operators operands ++ behind) :
    ∀ link ∈ operators.zip operands.tail, link.1.token.isJoint = true →
      ∀ token, link.2.elements.head? = some (.operand token) →
        ((Node.ofToken source token).offered source).1 = link.1.token.after := by
  rintro ⟨op, operand⟩ member isJoint token head_eq
  obtain ⟨first, second, front, back, rfl, rfl, front_length, back_length⟩ :=
    exists_behind arity member
  obtain ⟨rest, rest_eq⟩ := List.head?_eq_some_iff.mp head_eq
  obtain ⟨others, others_eq⟩ :=
    List.getLast?_eq_some_iff.mp (getLast?_elementsOf front_length before)
  have split_eq : elements = others ++ .operator op :: .operand token ::
      (rest ++ linksOf second back ++ behind) := by
    rw [elements_eq, elementsOf_around front_length back_length, ← List.append_assoc,
      ← List.append_assoc, others_eq, rest_eq]
    simp
  have tokens_eq := sequence.tokens_eq
  rw [split_eq, List.map_append, List.map_cons, List.map_cons] at tokens_eq
  exact sequence.arranged.offered_eq _ _ _ _ tokens_eq isJoint
    (sequence.operand (by simp [split_eq]))

/-- The nodes of the operands of a group lie one behind the other, with the operators between
them. -/
theorem group_laidOut (sequence : Sequence lexicon source tokens elements)
    (ordered : (group operators operands).Ordered order)
    (elements_eq : elements = before ++ elementsOf operators operands ++ behind) :
    ∀ parts, buildAll (Node.nodeGrammar source) operands = .ok parts →
      ∃ start stop, Node.LaidOut lexicon source start operators parts stop := by
  intro parts parts_eq
  have spread := Spread.of_tiled sequence.arranged.tiled
  rw [← sequence.elements_eq, elements_eq] at spread
  obtain ⟨stop, front, -⟩ := spread.exists_middle
  obtain ⟨start, -, here⟩ := front.exists_middle
  refine ⟨start, stop, Node.buildAll_laidOut (fun operand member => ?_) ordered.arity here parts_eq⟩
  obtain _ | ⟨_, _, _, _, _, within⟩ := ordered
  refine Node.build_laid (within operand member) fun element elementMember => ?_
  cases element with
  | operand token => trivial
  | operator op =>
      apply (sequence.operator _).1
      rw [elements_eq]
      exact List.mem_append_left _ (List.mem_append_right _
        (mem_elementsOf_operand member elementMember))

/-- The groups of a tree over the tokens of a text are formed as they stand. -/
theorem formed {tree : Tree Token Operator} (sequence : Sequence lexicon source tokens elements)
    (group_eq : treeGrammar.group (elements.map .ok) = .ok tree) :
    tree.Every (Formed lexicon source) := by
  have admitted := admitted_of_group_eq_ok (fun op member => (sequence.operator member).1) group_eq
  obtain ⟨ordered, elements_eq⟩ := ordered_of_group_eq_ok group_eq
  have whole : elements = [] ++ tree.elements ++ [] := by simp [elements_eq]
  refine Stands.every ?_ admitted (.whole ordered) whole
  intro before operators operands behind here stands elements_eq
  have among : ∀ op ∈ operators,
      op.Fits lexicon ∧ op.token.isOperand = false ∧ op.token.Level := by
    intro op member
    apply sequence.operator
    rw [elements_eq]
    exact List.mem_append_left _ (List.mem_append_right _ (mem_elementsOf_operator member))
  exact {
    fits op member := (among op member).1
    turns op member := (among op member).2.1
    level op member := (among op member).2.2
    makeup := makeup (fun op member => (among op member).1) here stands.ordered
    ordered := stands.ordered
    leads := sequence.group_leads stands elements_eq
    trails := sequence.group_trails stands elements_eq
    joined := sequence.group_joined stands elements_eq
    offers := sequence.group_offers stands.ordered.arity elements_eq
    laidOut := sequence.group_laidOut stands.ordered elements_eq }

end Sequence

/-! ## Parsed trees -/

/-- What a parsed tree comes from: the steps to its tokens, the tree that these group to, and
the node of that tree. -/
structure Origin (lexicon : Lexicon) (source : Source) (root : Node) where
  /-- The steps to the tokens. -/
  steps : Steps lexicon source
  /-- The tree that the tokens group to. -/
  tree : Tree Token Operator
  /-- The node of the tree. -/
  node : Node
  complete : steps.failure = none
  stream_eq : tokenStream lexicon source = steps.written.map .ok
  streams : Streams lexicon source steps.written none
  nested : Nested lexicon (brackets lexicon source)
  groupTokens_eq : groupTokens lexicon steps.written = .ok tree
  groups : Groups lexicon source steps.written tree node
  groupedTree_eq : groupedTree lexicon source = .ok node
  formed : tree.Every (Formed lexicon source)
  root_eq : root = (node.settle source ⟨true, true⟩).node

/-- Every parsed tree comes from the tokens of its text. -/
theorem exists_origin {root : Node} (parsed : parse lexicon source = .ok root) :
    Nonempty (Origin lexicon source root) := by
  obtain ⟨tokens, tree, node, stream_eq, streams, groups, root_eq⟩ :=
    exists_groups_of_parse parsed
  obtain ⟨steps, steps_eq⟩ := exists_steps lexicon source
  obtain ⟨rfl, complete⟩ := stream_inj (stream_eq.symm.trans steps_eq)
  rcases groupedTree_cases stream_eq streams with
    ⟨blamed, other, otherNode, otherGroups, grouped_eq⟩ | ⟨culprit, -, refused⟩
  · obtain rfl : other = tree := otherGroups.ordered.eq_of_elements_eq groups.ordered
      (otherGroups.elements_eq.trans groups.elements_eq.symm)
    obtain rfl := Except.ok.inj (otherGroups.build_eq.symm.trans groups.build_eq)
    obtain ⟨after, turns, balanced⟩ := streams.turns
    have nests := streams.nests rfl
    rw [blamed] at nests
    obtain ⟨grouped, groupTokens_eq⟩ := exists_groupTokens streams.fits (balanced rfl ▸ turns) nests
    obtain ⟨ordered, elements_eq⟩ := ordered_of_group_eq_ok groupTokens_eq
    obtain rfl := ordered.eq_of_elements_eq groups.ordered
      (elements_eq.trans groups.elements_eq.symm)
    exact ⟨{
      steps, tree := grouped, node := otherNode, streams, groups, groupTokens_eq, root_eq
      complete := complete.symm
      stream_eq := stream_eq.trans (stream_none _)
      nested := (nested_iff_blame_eq_none fun _ => isBracket_of_mem_brackets).mpr blamed
      groupedTree_eq := grouped_eq
      formed := Sequence.formed ⟨steps.arranged complete.symm blamed, rfl⟩ groupTokens_eq }⟩
  · rw [parse, refused] at parsed
    contradiction

end OperatorMarkup
