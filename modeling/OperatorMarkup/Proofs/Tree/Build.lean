import Mathlib.Data.List.Forall2
import OperatorMarkup.Proofs.Grouping.Building
import OperatorMarkup.Proofs.Operator.Joining
import OperatorMarkup.Proofs.Span
import OperatorMarkup.Tree.Build

/-!
# Every ordered tree can be built

The operators of a group in an ordered tree were fused, so they have a tag.  None
of the defects that building a group can report is ever met.
-/

namespace OperatorMarkup

open Grouping

/-- An element whose operator, if it is one, fits its lexeme. -/
def Element.Fits (lexicon : Lexicon) : Element Token Operator → Prop
  | .operand _ => True
  | .operator op => op.Fits lexicon

namespace Node

variable {lexicon : Lexicon} {source : Source} {first : Operator} {operators : List Operator}
  {operands : List Node} {span : Span}

/-- The grammar that parsing groups by. -/
abbrev nodeGrammar (source : Source) : Grammar (Except Error) Token Operator Node :=
  Operator.grammar (ofToken source) ofGroup

theorem exists_coveredSpan? : ∃ span, coveredSpan? (first :: operators) operands = some span :=
  Span.exists_merge (List.cons_ne_nil _ _)

/-- Fused operators have a tag. -/
theorem exists_ofTagged (fits : ∀ op ∈ first :: operators, op.Fits lexicon)
    (fused : ∀ pair ∈ (first :: operators).zip operators,
      Operator.order pair.1 pair.2 = .ok .aggregate) :
    ∃ node, ofTagged first (first :: operators) operands span = .ok node := by
  have joined := Operator.fused_cases fits fun pair member =>
    Operator.accepts_of_order_eq_aggregate (fused pair member)
  rw [ofTagged]
  rcases joined with chain | ⟨inline, closer, rfl⟩
  · by_cases line : first.token.isLineLevel = true
    · have all : ((first :: operators).all fun op =>
          op.token.isLineLevel && op.token.text == first.token.text) = true := by
        simp only [List.all_cons, line, beq_self_eq_true, Bool.and_self, Bool.true_and,
          List.all_eq_true, Bool.and_eq_true, beq_iff_eq]
        exact fun op member => ⟨(chain op member).2.trans line, (chain op member).1⟩
      rw [if_pos line, if_pos all]
      exact ⟨_, rfl⟩
    · have all : ((first :: operators).all (·.token.text == first.token.text)) = true := by
        simp only [List.all_cons, beq_self_eq_true, Bool.true_and, List.all_eq_true, beq_iff_eq]
        exact fun op member => (chain op member).1
      simp only [line, Bool.false_eq_true, if_false, inlineTag?, all, if_true]
      exact ⟨_, rfl⟩
  · simp only [inline, Bool.false_eq_true, if_false, inlineTag?]
    cases [first, closer].all (·.token.text == first.token.text) with
    | false => exact ⟨_, rfl⟩
    | true => exact ⟨_, rfl⟩

/-- A group of fused operators can be built. -/
theorem exists_ofGroup (fits : ∀ op ∈ operators, op.Fits lexicon) (nonempty : operators ≠ [])
    (fused : ∀ pair ∈ operators.zip operators.tail,
      Operator.order pair.1 pair.2 = .ok .aggregate)
    (arity : operands.length = operators.length + 1) :
    ∃ node, ofGroup operators operands = .ok node := by
  obtain ⟨first, operators, rfl⟩ := List.exists_cons_of_ne_nil nonempty
  obtain ⟨span, span_eq⟩ := @exists_coveredSpan? first operators operands
  simp only [ofGroup, span_eq, arity, ne_eq, not_true_eq_false, if_false]
  split
  · exact ⟨_, rfl⟩
  · exact exists_ofTagged fits fused

/-- Every ordered tree over operators that fit their lexemes can be built. -/
theorem exists_build {tree : Tree Token Operator} (ordered : tree.Ordered Operator.order)
    (fits : ∀ element ∈ tree.elements, element.Fits lexicon) :
    ∃ node, tree.build (nodeGrammar source) = .ok node := by
  induction ordered with
  | leaf operand => exact ⟨_, rfl⟩
  | @group operators operands nonempty arity fused _ _ _ ih =>
      obtain ⟨nodes, nodes_eq⟩ := Tree.exists_buildAll fun operand member =>
        ih operand member fun element within =>
          fits element (Tree.mem_elementsOf_operand member within)
      obtain ⟨node, node_eq⟩ := @exists_ofGroup lexicon operators nodes
        (fun op member => fits (.operator op) (Tree.mem_elementsOf_operator member)) nonempty fused
        (by rw [Tree.length_of_buildAll nodes_eq, arity])
      refine ⟨node, ?_⟩
      rw [Tree.build, nodes_eq]
      exact node_eq

/-! ## What is built -/

section Cases

variable {node : Node}

/-- A group that is not that of an indent and a dedent holds its operands as they are. -/
theorem ofTagged_cases (build_eq : ofTagged first operators operands span = .ok node) :
    (first.token.isLineLevel = true ∧ operators.all (·.token.text == first.token.text) = true ∧
        node = block (lineTag first operators) operands span) ∨
      ∃ tag, inlineTag? first operators = some tag ∧
        node = .group .inline tag (operators.any (·.token.isSpaced)) operands
          ⟨span, "", ""⟩ := by
  rw [ofTagged] at build_eq
  cases line : first.token.isLineLevel with
  | true =>
      rw [line, if_pos rfl] at build_eq
      split at build_eq
      · next all =>
          refine .inl ⟨rfl, ?_, (Except.ok.inj build_eq).symm⟩
          simp only [List.all_eq_true, Bool.and_eq_true] at all ⊢
          exact fun op member => (all op member).2
      · contradiction
  | false =>
      rw [line, if_neg Bool.false_ne_true] at build_eq
      split at build_eq
      · next tag tag_eq => exact .inr ⟨tag, tag_eq, (Except.ok.inj build_eq).symm⟩
      · contradiction

theorem exists_of_isIndentPair (pair : isIndentPair operators = true) :
    ∃ indent dedent, operators = [indent, dedent] ∧ indent.token.lexeme = .indent ∧
      dedent.token.lexeme = .dedent := by
  unfold isIndentPair at pair
  split at pair
  · next indent dedent =>
      rw [Bool.and_eq_true, beq_iff_eq, beq_iff_eq] at pair
      exact ⟨indent, dedent, rfl, pair.1, pair.2⟩
  · contradiction

theorem isIndentPair_length (pair : isIndentPair operators = true) : operators.length = 2 := by
  obtain ⟨indent, dedent, rfl, _⟩ := exists_of_isIndentPair pair
  rfl

/-- A node that is built has one more operand than operators, and covers what they do. -/
theorem ofGroup_cases (build_eq : ofGroup operators operands = .ok node) :
    operands.length = operators.length + 1 ∧
      ∃ first rest span, operators = first :: rest ∧
        coveredSpan? operators operands = some span ∧
        ((isIndentPair operators = true ∧ ∃ head body tail, operands = [head, body, tail] ∧
            node = indentBlock operators span head body tail) ∨
          isIndentPair operators = false ∧ ofTagged first operators operands span = .ok node) := by
  unfold ofGroup at build_eq
  split at build_eq
  · contradiction
  · contradiction
  · next span first rest span_eq =>
      split at build_eq
      · contradiction
      · next arity =>
          rw [not_not] at arity
          refine ⟨arity, first, rest, span, rfl, span_eq, ?_⟩
          cases pair : isIndentPair (first :: rest) with
          | true =>
              obtain ⟨head, body, tail, rfl⟩ := List.length_eq_three.mp
                (arity.trans (congrArg (· + 1) (isIndentPair_length pair)))
              rw [pair] at build_eq
              exact .inl ⟨rfl, head, body, tail, rfl, (Except.ok.inj build_eq).symm⟩
          | false =>
              rw [pair] at build_eq
              exact .inr ⟨rfl, build_eq⟩

/-- The lines of a body are those of a paragraph, or the body is its only line. -/
theorem bodyLines_cases (body : Node) :
    bodyLines body = [body] ∨ ∃ wide lines place,
      body = .group .block .paragraph wide lines place ∧ bodyLines body = lines := by
  cases body with
  | void | nullary | leaf => exact .inl rfl
  | group form tag wide lines place =>
      cases form with
      | inline => exact .inl rfl
      | block =>
          rw [bodyLines]
          split
          · next tag_eq => exact .inr ⟨wide, lines, place, by rw [tag_eq], rfl⟩
          · exact .inl rfl

/-- A head is the first line of an indented part, or takes it as its last operand behind
what its last operand was. -/
theorem indentBlock_cases (operators : List Operator) (span : Span) (head body tail : Node) :
    indentBlock operators span head body tail =
        block .indented (head :: bodyLines body ++ [tail]) span ∨
      ∃ tag wide before last place, tag ≠ .empty ∧
        head = .group .inline tag wide (before ++ [last]) place ∧
        indentBlock operators span head body tail = .group .inline tag wide
          (before ++ [block .indented (last :: bodyLines body ++ [tail])
            ((coveredSpan? operators (last :: bodyLines body ++ [tail])).getD span)])
          { place with span := span } := by
  cases head with
  | void | nullary | leaf => exact .inl rfl
  | group form tag wide children place =>
      cases form with
      | block => exact .inl rfl
      | inline =>
          rw [indentBlock]
          split
          · exact .inl rfl
          · next named =>
              split
              · exact .inl rfl
              · next last last_eq =>
                  obtain ⟨before, rfl⟩ := List.getLast?_eq_some_iff.mp last_eq
                  rw [List.dropLast_concat]
                  exact .inr ⟨tag, wide, before, last, place, named, rfl, rfl⟩

end Cases

section Induction

variable {motive : Tree Token Operator → Node → Prop}
  (leaf : ∀ token, motive (.leaf token) (ofToken source token))
  (group : ∀ operators operands nodes node, List.Forall₂ motive operands nodes →
    ofGroup operators nodes = .ok node → motive (.group operators operands) node)

include leaf group

/-- What relates the operands of each group to their nodes, and then the group to its own,
relates a tree to the node that is built from it. -/
theorem build_induction : ∀ (tree : Tree Token Operator) {node : Node},
    tree.build (nodeGrammar source) = .ok node → motive tree node
  | .leaf token, _, build_eq => Except.ok.inj build_eq ▸ leaf token
  | .group operators operands, node, build_eq => by
      obtain ⟨nodes, nodes_eq, node_eq⟩ := Except.bind_eq_ok_iff.mp build_eq
      refine group operators operands nodes node ?_ node_eq
      have each : ∀ operand ∈ operands, ∀ node : Node,
          operand.build (nodeGrammar source) = .ok node → motive operand node := by
        intro operand member node build_eq
        have smaller := List.sizeOf_lt_of_mem member
        exact build_induction operand build_eq
      clear build_eq node_eq
      induction operands generalizing nodes with
      | nil =>
          cases nodes_eq
          exact .nil
      | cons operand operands ih =>
          rw [List.forall_mem_cons] at each
          obtain ⟨first, others, first_eq, others_eq, rfl⟩ :=
            Tree.buildAll_cons_eq_ok_iff.mp nodes_eq
          exact .cons (each.1 first first_eq) (ih others others_eq each.2)

end Induction

end Node

end OperatorMarkup
