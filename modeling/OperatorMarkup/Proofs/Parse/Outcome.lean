import OperatorMarkup.Parse
import OperatorMarkup.Proofs.Token.Stream
import OperatorMarkup.Proofs.Tree.Build

/-!
# What parsing comes to

A stream without an error is grouped into a tree where its brackets are well
nested, and is refused for the bracket at fault where they are not.  A stream that
ends in an error is refused for that error or for a bracket before it.
-/

namespace OperatorMarkup

open Grouping Operator

variable {lexicon : Lexicon} {source : Source} {tokens : List Token} {failure : Option Error}

/-! ## Elements of a stream -/

theorem elements_eq (stream_eq : tokenStream lexicon source = stream tokens failure) :
    elements lexicon source =
      (tokens.map (Token.element lexicon)).map .ok ++ failure.toList.map .error := by
  rw [elements, stream_eq, stream, List.map_append, List.map_map, List.map_map, List.map_map]
  rfl

theorem elements_fit (fits : ∀ token ∈ tokens, token.Fits lexicon) :
    ∀ element ∈ tokens.map (Token.element lexicon), element.Fits lexicon := by
  intro element member
  obtain ⟨token, tokenMem, rfl⟩ := List.mem_map.mp member
  rw [Token.element]
  split
  · exact trivial
  · exact ⟨fits token tokenMem, rfl⟩

theorem element_of_isOperand {token : Token} (operand : token.isOperand = true) :
    token.element lexicon = .operand token := by
  rw [Token.element, if_pos operand]

theorem element_of_isOperator {token : Token} (operator : token.isOperand = false) :
    token.element lexicon = .operator (ofToken lexicon token) := by
  rw [Token.element, operator, if_neg Bool.false_ne_true]

theorem isOperator_of_element_eq {token : Token} {op : Operator}
    (element_eq : token.element lexicon = .operator op) : token.isOperand = false := by
  cases operand : token.isOperand with
  | false => rfl
  | true =>
      rw [element_of_isOperand operand] at element_eq
      contradiction

theorem eq_of_element_eq_operator {token : Token} {op : Operator}
    (element_eq : token.element lexicon = .operator op) : op = ofToken lexicon token := by
  rw [element_of_isOperator (isOperator_of_element_eq element_eq)] at element_eq
  exact (Element.operator.inj element_eq).symm

theorem allFit_of_elements_fit {elements : List (Element Token Operator)}
    (fits : ∀ element ∈ elements, element.Fits lexicon) : AllFit lexicon elements := by
  intro op member
  induction elements with
  | nil => contradiction
  | cons element elements ih =>
      rw [List.forall_mem_cons] at fits
      cases element with
      | operand _ => exact ih fits.2 member
      | operator first =>
          rcases List.mem_cons.mp member with rfl | later
          · exact fits.1
          · exact ih fits.2 later

/-- Tokens in turn alternate, with an operand behind them where one is due. -/
theorem exists_alternates_of_turns : ∀ (tokens : List Token) (after : Bool),
    Turns true tokens after →
      ∃ more, Alternates (tokens.map (Token.element lexicon) ++ more) ∧ operatorsOf more = [] ∧
        (after = false → more = [])
  | [], _, .nil _ =>
      ⟨[.operand (.synthetic .void .filler "" 0)], trivial, rfl, nofun⟩
  | [token], _, .cons operand (.nil _) => by
      rw [List.map_singleton, element_of_isOperand operand]
      exact ⟨[], trivial, rfl, fun _ => rfl⟩
  | token :: next :: rest, after, .cons operand (.cons operator turns) => by
      rw [List.map_cons, List.map_cons, element_of_isOperand operand,
        element_of_isOperator operator]
      exact exists_alternates_of_turns rest after turns

/-- Tokens in turn up to an operand alternate. -/
theorem alternates_of_turns (turns : Turns true tokens false) :
    Alternates (tokens.map (Token.element lexicon)) := by
  obtain ⟨more, alternates, _, none_eq⟩ := exists_alternates_of_turns tokens false turns
  rwa [none_eq rfl, List.append_nil] at alternates

/-- Only the delimiters of a stream matter to nesting. -/
theorem nest_elements (fits : ∀ token ∈ tokens, token.Fits lexicon) (pending : List Operator) :
    nest pending (operatorsOf (tokens.map (Token.element lexicon))) =
      nest pending (delimiterOperators lexicon tokens) := by
  induction tokens generalizing pending with
  | nil => rfl
  | cons token tokens ih =>
      rw [List.forall_mem_cons] at fits
      have rest := ih fits.2
      rw [← List.singleton_append, delimiterOperators_append, List.map_append, List.map_singleton,
        operatorsOf_append, nest_append, nest_append]
      simp only [rest]
      congr 1
      cases operand : token.isOperand with
      | true =>
          rw [element_of_isOperand operand,
            delimiterOperators_of_not_isDelimiter (fits.1.isDelimiter_eq_false operand)]
          rfl
      | false =>
          rw [element_of_isOperator operand]
          cases delimiter : token.lexeme.isDelimiter with
          | true =>
              rw [delimiterOperators_of_isDelimiter delimiter]
              rfl
          | false =>
              rw [delimiterOperators_of_not_isDelimiter delimiter]
              change nest pending [ofToken lexicon token] = .ok pending
              rw [nest_cons, nestStep_of_not_isDelimiter ⟨fits.1, rfl⟩ delimiter]
              rfl

/-! ## Outcomes -/

/-- Parsing gives the settled node of an ordered tree over the stream. -/
structure Groups (lexicon : Lexicon) (source : Source) (tokens : List Token)
    (tree : Tree Token Operator) (node : Node) : Prop where
  ordered : tree.Ordered order
  elements_eq : tree.elements = tokens.map (Token.element lexicon)
  build_eq : tree.build (Node.nodeGrammar source) = .ok node

/-- Grouping tokens builds nodes from the tree that they group to. -/
theorem group_nodes (fits : ∀ token ∈ tokens, token.Fits lexicon) :
    Except.Agree (fun tree node => tree.build (Node.nodeGrammar source) = .ok node)
      (treeGrammar.group ((tokens.map (Token.element lexicon)).map .ok))
      ((Node.nodeGrammar source).group ((tokens.map (Token.element lexicon)).map .ok)) := by
  apply group_agree
  · intro tree ordered holds
    exact @Node.exists_build lexicon source tree ordered holds
  · exact fun operand => ⟨_, rfl⟩
  · exact elements_fit fits

theorem groupedTree_eq (stream_eq : tokenStream lexicon source = stream tokens none) :
    groupedTree lexicon source =
      (Node.nodeGrammar source).group ((tokens.map (Token.element lexicon)).map .ok) := by
  rw [groupedTree, elements_eq stream_eq, Option.toList_none, List.map_nil, List.append_nil]

/-- A stream without an error is grouped, or refused for the bracket at fault. -/
theorem groupedTree_cases (stream_eq : tokenStream lexicon source = stream tokens none)
    (streams : Streams lexicon source tokens none) :
    (blame lexicon (brackets lexicon source) = none ∧
      ∃ tree node, Groups lexicon source tokens tree node ∧
        groupedTree lexicon source = .ok node) ∨
    ∃ culprit, blame lexicon (brackets lexicon source) = some culprit ∧
      groupedTree lexicon source = .error culprit.unmatched := by
  have fits := elements_fit streams.fits
  obtain ⟨after, turns, balanced⟩ := streams.turns
  obtain rfl := balanced rfl
  have agree := @group_nodes lexicon source tokens streams.fits
  have nests := group_nest (alternates_of_turns turns) (allFit_of_elements_fit fits)
  rw [nest_elements streams.fits, streams.nests rfl] at nests
  rw [groupedTree_eq stream_eq]
  cases blame_eq : blame lexicon (brackets lexicon source) with
  | none =>
      rw [blame_eq] at nests
      obtain ⟨tree, tree_eq, _⟩ := Except.agree_ok_iff.mp nests
      rw [tree_eq] at agree
      obtain ⟨node, node_eq, build_eq⟩ := Except.agree_ok_iff.mp agree
      obtain ⟨ordered, elements_eq⟩ := ordered_of_group_eq_ok tree_eq
      exact .inl ⟨rfl, tree, node, ⟨ordered, elements_eq, build_eq⟩, node_eq⟩
  | some culprit =>
      rw [blame_eq] at nests
      rw [Except.agree_error_iff.mp nests] at agree
      exact .inr ⟨culprit, rfl, Except.agree_error_iff.mp agree⟩

/-- Reading the tokens of a stream, and an operand behind them where one is due, succeeds
or fails as nesting its delimiters does. -/
theorem nest_agree_read (streams : Streams lexicon source tokens failure) :
    ∃ (more : List (Element Token Operator))
      (related : List Operator → State Operator (Tree Token Operator) → Prop),
      operatorsOf more = [] ∧
        Except.Agree related (nest [] (delimiterOperators lexicon tokens))
          ((treeGrammar.read (.operandDue []) (tokens.map (Token.element lexicon))).bind
            fun state => treeGrammar.read state more) := by
  obtain ⟨after, turns, _⟩ := streams.turns
  obtain ⟨more, alternates, noOperator, _⟩ :=
    exists_alternates_of_turns tokens after turns
  have operators_eq : operatorsOf (tokens.map (Token.element lexicon) ++ more) =
      operatorsOf (tokens.map (Token.element lexicon)) := by
    rw [operatorsOf_append, noOperator, List.append_nil]
  have allFit : AllFit lexicon (tokens.map (Token.element lexicon) ++ more) := by
    rw [AllFit, operators_eq]
    exact allFit_of_elements_fit (elements_fit streams.fits)
  have started : Waits lexicon [] ([] : List (Frame Operator (Tree Token Operator))) :=
    ⟨rfl, fun _ member => absurd member List.not_mem_nil⟩
  have nests := read_nest alternates allFit started
  rw [operators_eq, nest_elements streams.fits, Grammar.read_append] at nests
  exact ⟨more, _, noOperator, nests⟩

/-- Reading the tokens of a stream fails for the bracket at fault alone. -/
theorem exists_blame_of_read_error {error : Error} (streams : Streams lexicon source tokens failure)
    (read_eq : treeGrammar.read (.operandDue []) (tokens.map (Token.element lexicon)) =
      .error error) :
    ∃ culprit, blame lexicon (brackets lexicon source) = some culprit ∧
      error = culprit.unmatched := by
  obtain ⟨more, related, _, nests⟩ := nest_agree_read streams
  rw [read_eq] at nests
  apply streams.blames
  cases nest_eq : nest [] (delimiterOperators lexicon tokens) with
  | ok pending =>
      rw [nest_eq] at nests
      exact nests.elim
  | error first =>
      rw [nest_eq] at nests
      exact congrArg Except.error nests

/-- Operands alone are refused only where two stand in a row. -/
theorem internal_of_read_operands {more : List (Element Token Operator)}
    {state : State Operator (Tree Token Operator)} {error : Error}
    (noOperator : operatorsOf more = []) (read_eq : treeGrammar.read state more = .error error) :
    ∃ defect span, error = .internal defect span := by
  induction more generalizing state with
  | nil => contradiction
  | cons element more ih =>
      cases element with
      | operator op => contradiction
      | operand value =>
          rw [Grammar.read_cons] at read_eq
          cases state with
          | operandDue stack => exact ih noOperator read_eq
          | operatorDue stack current => exact ⟨_, _, (Except.error.inj read_eq).symm⟩

/-- The tokens of a stream are read to the end where its delimiters nest. -/
theorem read_isOk_iff (streams : Streams lexicon source tokens failure) :
    (∃ state : State Operator (Tree Token Operator),
        treeGrammar.read (.operandDue []) (tokens.map (Token.element lexicon)) = .ok state) ↔
      ∃ pending, nest [] (delimiterOperators lexicon tokens) = .ok pending := by
  obtain ⟨more, related, noOperator, nests⟩ := nest_agree_read streams
  cases nest_eq : nest [] (delimiterOperators lexicon tokens) with
  | ok pending =>
      rw [nest_eq] at nests
      obtain ⟨_, bind_eq, _⟩ := Except.agree_ok_iff.mp nests
      obtain ⟨state, read_eq, _⟩ := Except.bind_eq_ok_iff.mp bind_eq
      exact iff_of_true ⟨state, read_eq⟩ ⟨pending, rfl⟩
  | error error =>
      rw [nest_eq] at nests
      refine iff_of_false ?_ nofun
      rintro ⟨state, read_eq⟩
      obtain ⟨culprit, _, rfl⟩ := streams.blames error nest_eq
      rw [read_eq] at nests
      obtain ⟨defect, span, impossible⟩ :=
        internal_of_read_operands noOperator (Except.agree_error_iff.mp nests)
      contradiction

/-- A stream that ends in an error is refused for it where the delimiters before it
nest, and else for the bracket at fault. -/
theorem groupedTree_of_failure_cases {error : Error}
    (stream_eq : tokenStream lexicon source = stream tokens (some error))
    (streams : Streams lexicon source tokens (some error)) :
    ((∃ pending, nest [] (delimiterOperators lexicon tokens) = .ok pending) ∧
      groupedTree lexicon source = .error error) ∨
    (¬ ∃ pending, nest [] (delimiterOperators lexicon tokens) = .ok pending) ∧
      ∃ culprit, blame lexicon (brackets lexicon source) = some culprit ∧
        groupedTree lexicon source = .error culprit.unmatched := by
  have agree : Except.Agree (fun tree node => tree.build (Node.nodeGrammar source) = .ok node)
      (treeGrammar.group ((tokens.map (Token.element lexicon)).map .ok ++ [.error error]))
      (groupedTree lexicon source) := by
    rw [groupedTree, elements_eq stream_eq]
    exact group_agree_of_failure (fun tree ordered holds => Node.exists_build ordered holds)
      (fun operand => ⟨_, rfl⟩) (elements_fit streams.fits) error []
  rw [Grammar.group_append_error] at agree
  rw [← read_isOk_iff streams]
  cases read_eq : treeGrammar.read (.operandDue []) (tokens.map (Token.element lexicon)) with
  | ok state =>
      rw [read_eq] at agree
      exact .inl ⟨⟨state, rfl⟩, Except.agree_error_iff.mp agree⟩
  | error other =>
      rw [read_eq] at agree
      obtain ⟨culprit, blame_eq, rfl⟩ := exists_blame_of_read_error streams read_eq
      exact .inr ⟨nofun, culprit, blame_eq, Except.agree_error_iff.mp agree⟩

/-- A stream that ends in an error is refused for it, or for the bracket at
fault. -/
theorem groupedTree_of_failure {error : Error}
    (stream_eq : tokenStream lexicon source = stream tokens (some error))
    (streams : Streams lexicon source tokens (some error)) :
    groupedTree lexicon source = .error error ∨
    ∃ culprit, blame lexicon (brackets lexicon source) = some culprit ∧
      groupedTree lexicon source = .error culprit.unmatched :=
  (groupedTree_of_failure_cases stream_eq streams).imp And.right And.right

/-- A tree whose whitespace is not settled is the node of an ordered tree over a stream without
an error. -/
theorem exists_groups_of_groupedTree {node : Node} (grouped : groupedTree lexicon source = .ok node) :
    ∃ (tokens : List Token) (tree : Tree Token Operator),
      tokenStream lexicon source = stream tokens none ∧
        Streams lexicon source tokens none ∧ Groups lexicon source tokens tree node := by
  obtain ⟨tokens, failure, stream_eq, streams⟩ := tokenStream_streams lexicon source
  cases failure with
  | some error =>
      rcases groupedTree_of_failure stream_eq streams with refused | ⟨culprit, _, refused⟩
      · rw [refused] at grouped
        contradiction
      · rw [refused] at grouped
        contradiction
  | none =>
      rcases groupedTree_cases stream_eq streams with
        ⟨_, tree, node, groups, ok_eq⟩ | ⟨culprit, _, refused⟩
      · rw [ok_eq] at grouped
        cases grouped
        exact ⟨tokens, tree, stream_eq, streams, groups⟩
      · rw [refused] at grouped
        contradiction

/-- A tree that was parsed is settled from the node of an ordered tree over a stream
without an error. -/
theorem exists_groups_of_parse {root : Node} (parsed : parse lexicon source = .ok root) :
    ∃ (tokens : List Token) (tree : Tree Token Operator) (node : Node),
      tokenStream lexicon source = stream tokens none ∧
        Streams lexicon source tokens none ∧ Groups lexicon source tokens tree node ∧
        root = (node.settle source ⟨true, true⟩).node := by
  rw [parse, Except.map_eq_ok_iff] at parsed
  obtain ⟨node, grouped, rfl⟩ := parsed
  obtain ⟨tokens, tree, stream_eq, streams, groups⟩ := exists_groups_of_groupedTree grouped
  exact ⟨tokens, tree, node, stream_eq, streams, groups, rfl⟩

end OperatorMarkup
