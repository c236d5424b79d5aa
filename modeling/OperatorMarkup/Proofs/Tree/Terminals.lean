import Mathlib
import OperatorMarkup.Proofs.Operator.Nesting
import OperatorMarkup.Proofs.Tree.Build
import OperatorMarkup.Proofs.Tree.Outline
import OperatorMarkup.Proofs.Tree.Reprint

/-!
# What a tree keeps of its sequence

The leaves of a tree from left to right are the operands that it was built from, and
between the operands of its groups stand as many operators as it was built with.  A
head that takes an indented part into its last operand keeps both, and so does a
paragraph whose lines become those of the part.
-/

namespace OperatorMarkup

open Grouping Operator

/-- What a leaf of a tree stands for. -/
inductive Terminal where
  /-- An operand that the text leaves out. -/
  | void
  /-- An operator that stands alone. -/
  | nullary (text : String)
  /-- A word. -/
  | word (text : String)
  deriving DecidableEq, Repr

/-- The leaf that an operand token is to become. -/
def Token.terminal (token : Token) : Terminal :=
  match token.kind with
  | .void => .void
  | .nullary => .nullary token.text
  | .identifier | .operator _ => .word token.text

/-- The operands of a sequence in order. -/
def operandsOf {α ο : Type} : List (Element α ο) → List α
  | [] => []
  | .operand value :: rest => value :: operandsOf rest
  | .operator _ :: rest => operandsOf rest

namespace Node

mutual

/-- The leaves of a tree from left to right. -/
def terminals : Node → List Terminal
  | void _ => [.void]
  | nullary text _ => [.nullary text]
  | leaf text _ => [.word text]
  | group _ _ _ children _ => terminalsAll children

/-- The leaves of some trees from left to right. -/
def terminalsAll : List Node → List Terminal
  | [] => []
  | child :: rest => terminals child ++ terminalsAll rest

end

mutual

/-- The number of places between two neighbouring operands of a group, over all groups
of a tree. -/
def jointCount : Node → Nat
  | group _ _ _ children _ => children.length - 1 + jointCountAll children
  | _ => 0

/-- The number of places between neighbouring operands, over all groups of some
trees. -/
def jointCountAll : List Node → Nat
  | [] => 0
  | child :: rest => jointCount child + jointCountAll rest

end

/-- Every group of a tree has two operands or more, and every leaf has a property. -/
inductive Branching (holds : Node → Prop) : Node → Prop
  | leaf {node : Node} (alone : node.tag? = none) (here : holds node) : Branching holds node
  | group {form : Form} {tag : Tag} {wide : Bool} {children : List Node} {place : Place}
      (enough : 2 ≤ children.length) (within : ∀ child ∈ children, Branching holds child) :
      Branching holds (.group form tag wide children place)

/-- The node of a tree has the operands of its sequence as leaves and its operators
between the operands of groups. -/
structure Conserves (tree : Tree Token Operator) (node : Node) : Prop where
  terminals_eq : node.terminals = (operandsOf tree.elements).map Token.terminal
  jointCount_eq : node.jointCount = (operatorsOf tree.elements).length
  branching : node.Branching fun _ => True

variable {source : Source} {keepsWide : Bool} {holds : Node → Prop} {node root : Node}
  {children : List Node}

/-! ## Groups -/

@[simp]
theorem terminals_group (form : Form) (tag : Tag) (wide : Bool) (children : List Node)
    (place : Place) :
    (group form tag wide children place).terminals = children.flatMap terminals := by
  rw [terminals]
  induction children with
  | nil => rfl
  | cons child rest ih => rw [terminalsAll, ih, List.flatMap_cons]

@[simp]
theorem jointCount_group (form : Form) (tag : Tag) (wide : Bool) (children : List Node)
    (place : Place) :
    (group form tag wide children place).jointCount =
      children.length - 1 + (children.map jointCount).sum := by
  rw [jointCount]
  congr 1
  induction children with
  | nil => rfl
  | cons child rest ih => rw [jointCountAll, ih, List.map_cons, List.sum_cons]

theorem branching_group_iff {form : Form} {tag : Tag} {wide : Bool} {place : Place} :
    (group form tag wide children place).Branching holds ↔
      2 ≤ children.length ∧ ∀ child ∈ children, child.Branching holds := by
  constructor
  · rintro (⟨alone, _⟩ | ⟨enough, within⟩)
    · contradiction
    · exact ⟨enough, within⟩
  · rintro ⟨enough, within⟩
    exact .group enough within

theorem children_eq_nil (alone : node.tag? = none) : node.children = [] := by
  cases node with
  | void | nullary | leaf => rfl
  | group => contradiction

theorem Branching.of_occursIn (branching : root.Branching holds) (occurs : node.OccursIn root) :
    node.Branching holds := by
  induction occurs with
  | root => exact branching
  | child _ member ih =>
      cases ih branching with
      | leaf alone _ =>
          rw [children_eq_nil alone] at member
          contradiction
      | group _ within => exact within _ member

/-- A group somewhere in a tree whose groups branch has two operands or more. -/
theorem Branching.two_le (branching : root.Branching holds) (occurs : node.OccursIn root)
    (tagged : node.tag?.isSome = true) : 2 ≤ node.children.length := by
  cases branching.of_occursIn occurs with
  | leaf alone _ =>
      rw [alone] at tagged
      contradiction
  | group enough _ => exact enough

/-! ## Outlines -/

theorem terminals_outline (keepsWide : Bool) (node : Node) :
    (node.outline keepsWide).terminals = node.terminals := by
  induction node using induction with
  | step node ih =>
      cases node with
      | void | nullary | leaf => rfl
      | group form tag wide operands place =>
          rw [outline_group, terminals_group, terminals_group, List.flatMap_map]
          exact List.flatMap_congr ih

theorem jointCount_outline (keepsWide : Bool) (node : Node) :
    (node.outline keepsWide).jointCount = node.jointCount := by
  induction node using induction with
  | step node ih =>
      cases node with
      | void | nullary | leaf => rfl
      | group form tag wide operands place =>
          rw [outline_group, jointCount_group, jointCount_group, List.length_map, List.map_map]
          exact congrArg (_ + List.sum ·) (List.map_congr_left ih)

theorem branching_outline (keepsWide : Bool) (node : Node) :
    ((node.outline keepsWide).Branching fun _ => True) ↔ node.Branching fun _ => True := by
  induction node using induction with
  | step node ih =>
      cases node with
      | void | nullary | leaf => exact iff_of_true (.leaf rfl trivial) (.leaf rfl trivial)
      | group form tag wide operands place =>
          rw [outline_group, branching_group_iff, branching_group_iff, List.length_map,
            List.forall_mem_map]
          exact and_congr_right fun _ => forall₂_congr ih

/-- What holds of the leaves and the groups of a node holds of them once whitespace is
settled. -/
theorem Conserves.settle {tree : Tree Token Operator} (conserves : Conserves tree node)
    (source : Source) (owns : Ownership) : Conserves tree (node.settle source owns).node := by
  have same := @outline_settle true source node owns
  constructor
  · rw [← terminals_outline true, same, terminals_outline]
    exact conserves.terminals_eq
  · rw [← jointCount_outline true, same, jointCount_outline]
    exact conserves.jointCount_eq
  · rw [← branching_outline true, same, branching_outline]
    exact conserves.branching

/-! ## Indented parts -/

variable {body head tail : Node} {operators : List Operator} {span : Span}

theorem terminals_bodyLines (body : Node) :
    (bodyLines body).flatMap terminals = body.terminals := by
  rcases bodyLines_cases body with single_eq | ⟨wide, lines, place, rfl, lines_eq⟩
  · rw [single_eq, List.flatMap_singleton]
  · rw [lines_eq, terminals_group]

/-- The lines of a body have one line end more between them and the line in front. -/
theorem jointCount_bodyLines (branching : body.Branching holds) :
    (bodyLines body).length + ((bodyLines body).map jointCount).sum = body.jointCount + 1 := by
  rcases bodyLines_cases body with single_eq | ⟨wide, lines, place, rfl, lines_eq⟩
  · rw [single_eq, List.map_singleton, List.sum_singleton, List.length_singleton]
    omega
  · have enough := (branching_group_iff.mp branching).1
    rw [lines_eq, jointCount_group]
    omega

theorem branching_bodyLines (branching : body.Branching holds) :
    ∀ line ∈ bodyLines body, line.Branching holds := by
  rcases bodyLines_cases body with single_eq | ⟨wide, lines, place, rfl, lines_eq⟩
  · rw [single_eq, List.forall_mem_singleton]
    exact branching
  · rw [lines_eq]
    exact (branching_group_iff.mp branching).2

theorem terminals_lines (first : Node) :
    (block .indented (first :: bodyLines body ++ [tail]) span).terminals =
      first.terminals ++ body.terminals ++ tail.terminals := by
  rw [block, terminals_group, List.flatMap_append, List.flatMap_cons, terminals_bodyLines,
    List.flatMap_singleton]

theorem jointCount_lines (branching : body.Branching holds) (first : Node) :
    (block .indented (first :: bodyLines body ++ [tail]) span).jointCount =
      2 + first.jointCount + body.jointCount + tail.jointCount := by
  have lines_eq := jointCount_bodyLines branching
  rw [block, jointCount_group, List.map_append, List.map_cons, List.map_singleton,
    List.sum_append, List.sum_cons, List.sum_singleton, List.length_append, List.length_cons,
    List.length_singleton]
  omega

theorem branching_lines {first : Node} (first_branching : first.Branching holds)
    (body_branching : body.Branching holds) (tail_branching : tail.Branching holds) :
    (block .indented (first :: bodyLines body ++ [tail]) span).Branching holds := by
  rw [block, branching_group_iff, List.forall_mem_append, List.forall_mem_cons,
    List.forall_mem_singleton]
  refine ⟨?_, ⟨first_branching, branching_bodyLines body_branching⟩, tail_branching⟩
  rw [List.length_append, List.length_cons, List.length_singleton]
  omega

theorem terminals_indentBlock :
    (indentBlock operators span head body tail).terminals =
      head.terminals ++ body.terminals ++ tail.terminals := by
  rcases indentBlock_cases operators span head body tail with
    line_eq | ⟨tag, wide, before, last, place, _, rfl, spliced_eq⟩
  · rw [line_eq, terminals_lines]
  · rw [spliced_eq, terminals_group, terminals_group, List.flatMap_append, List.flatMap_append,
      List.flatMap_singleton, List.flatMap_singleton, terminals_lines]
    simp only [List.append_assoc]

theorem jointCount_indentBlock (branching : body.Branching holds) :
    (indentBlock operators span head body tail).jointCount =
      2 + head.jointCount + body.jointCount + tail.jointCount := by
  rcases indentBlock_cases operators span head body tail with
    line_eq | ⟨tag, wide, before, last, place, _, rfl, spliced_eq⟩
  · rw [line_eq, jointCount_lines branching]
  · rw [spliced_eq, jointCount_group, jointCount_group]
    simp only [List.map_append, List.map_singleton, List.sum_append, List.sum_singleton,
      List.length_append, List.length_singleton, jointCount_lines branching]
    omega

theorem branching_indentBlock (head_branching : head.Branching holds)
    (body_branching : body.Branching holds) (tail_branching : tail.Branching holds) :
    (indentBlock operators span head body tail).Branching holds := by
  rcases indentBlock_cases operators span head body tail with
    line_eq | ⟨tag, wide, before, last, place, _, rfl, spliced_eq⟩
  · rw [line_eq]
    exact branching_lines head_branching body_branching tail_branching
  · rw [branching_group_iff, List.forall_mem_append, List.forall_mem_singleton] at head_branching
    obtain ⟨enough, earlier, last_branching⟩ := head_branching
    rw [spliced_eq, branching_group_iff, List.forall_mem_append, List.forall_mem_singleton]
    rw [List.length_append, List.length_singleton] at enough ⊢
    exact ⟨enough, earlier, branching_lines last_branching body_branching tail_branching⟩

/-! ## Built trees -/

theorem terminals_ofToken (source : Source) (token : Token) :
    (ofToken source token).terminals = [token.terminal] := by
  rw [ofToken, Token.terminal]
  cases token.kind <;> rfl

theorem jointCount_ofToken (source : Source) (token : Token) :
    (ofToken source token).jointCount = 0 := by
  rw [ofToken]
  cases token.kind <;> rfl

theorem tag?_ofToken (source : Source) (token : Token) : (ofToken source token).tag? = none := by
  rw [ofToken]
  cases token.kind <;> rfl

/-- A group that is built has its operators between its operands. -/
theorem ofGroup_conserves {operands : List Node} (build_eq : ofGroup operators operands = .ok node)
    (branching : ∀ operand ∈ operands, operand.Branching holds) :
    node.terminals = operands.flatMap terminals ∧
      node.jointCount = operators.length + (operands.map jointCount).sum ∧
      node.Branching holds := by
  obtain ⟨arity, first, rest, span, rfl, _, cases_eq⟩ := ofGroup_cases build_eq
  rcases cases_eq with ⟨pair, head, body, tail, rfl, rfl⟩ | ⟨_, tagged_eq⟩
  · simp only [List.forall_mem_cons] at branching
    obtain ⟨head_branching, body_branching, tail_branching, _⟩ := branching
    refine ⟨?_, ?_, branching_indentBlock head_branching body_branching tail_branching⟩
    · rw [terminals_indentBlock]
      simp [List.flatMap_cons]
    · rw [jointCount_indentBlock body_branching, isIndentPair_length pair]
      simp only [List.map_cons, List.map_nil, List.sum_cons, List.sum_nil]
      omega
  · rw [List.length_cons] at arity
    rcases ofTagged_cases tagged_eq with ⟨_, _, rfl⟩ | ⟨tag, _, rfl⟩
    · rw [block, terminals_group, jointCount_group, branching_group_iff, arity, List.length_cons]
      exact ⟨rfl, rfl, Nat.le_add_left _ _, branching⟩
    · rw [terminals_group, jointCount_group, branching_group_iff, arity, List.length_cons]
      exact ⟨rfl, rfl, Nat.le_add_left _ _, branching⟩

end Node

/-! ## Sequences of trees -/

section Sequences

variable {α ο : Type}

theorem operandsOf_append (first second : List (Element α ο)) :
    operandsOf (first ++ second) = operandsOf first ++ operandsOf second := by
  induction first with
  | nil => rfl
  | cons element first ih => cases element <;> simp [operandsOf, ih]

theorem operandsOf_map_operator (operators : List ο) :
    operandsOf (operators.map (Element.operator : ο → Element α ο)) = [] := by
  induction operators with
  | nil => rfl
  | cons op operators ih => exact ih

/-- The operands of a group are those of its own operands, one behind the other. -/
theorem operandsOf_elementsOf (operators : List ο) (operands : List (Tree α ο)) :
    operandsOf (Tree.elementsOf operators operands) =
      operands.flatMap fun operand => operandsOf operand.elements := by
  induction operands generalizing operators with
  | nil =>
      rw [Tree.elementsOf]
      exact operandsOf_map_operator operators
  | cons operand operands ih =>
      cases operators with
      | nil => rw [Tree.elementsOf, operandsOf_append, ih, List.flatMap_cons]
      | cons op operators =>
          rw [Tree.elementsOf, operandsOf_append, operandsOf, ih, List.flatMap_cons]

theorem operatorsOf_map_operator (operators : List Operator) :
    operatorsOf (operators.map (Element.operator : Operator → Element α Operator)) =
      operators := by
  induction operators with
  | nil => rfl
  | cons op operators ih => rw [List.map_cons, operatorsOf, ih]

/-- The operators of a group are its own and those of its operands. -/
theorem length_operatorsOf_elementsOf (operators : List Operator)
    (operands : List (Tree α Operator)) :
    (operatorsOf (Tree.elementsOf operators operands)).length =
      operators.length +
        (operands.map fun operand => (operatorsOf operand.elements).length).sum := by
  induction operands generalizing operators with
  | nil => rw [Tree.elementsOf, operatorsOf_map_operator, List.map_nil, List.sum_nil, Nat.add_zero]
  | cons operand operands ih =>
      cases operators with
      | nil =>
          rw [Tree.elementsOf, operatorsOf_append, List.length_append, ih, List.map_cons,
            List.sum_cons]
          omega
      | cons op operators =>
          rw [Tree.elementsOf, operatorsOf_append, List.length_append, operatorsOf,
            List.length_cons, ih, List.map_cons, List.sum_cons, List.length_cons]
          omega

end Sequences

namespace Node

/-- What holds of the nodes of each of some trees holds of them together. -/
theorem conserves_all {trees : List (Tree Token Operator)} {nodes : List Node}
    (each : List.Forall₂ Conserves trees nodes) :
    nodes.flatMap terminals =
        (trees.flatMap fun tree => operandsOf tree.elements).map Token.terminal ∧
      (nodes.map jointCount).sum =
        (trees.map fun tree => (operatorsOf tree.elements).length).sum ∧
      ∀ node ∈ nodes, node.Branching fun _ => True := by
  induction each with
  | nil => exact ⟨rfl, rfl, fun _ member => absurd member List.not_mem_nil⟩
  | cons conserves _ ih =>
      obtain ⟨terminals_eq, jointCount_eq, branching⟩ := ih
      refine ⟨?_, ?_, List.forall_mem_cons.mpr ⟨conserves.branching, branching⟩⟩
      · rw [List.flatMap_cons, List.flatMap_cons, List.map_append, conserves.terminals_eq,
          terminals_eq]
      · rw [List.map_cons, List.map_cons, List.sum_cons, List.sum_cons, conserves.jointCount_eq,
          jointCount_eq]

/-- The node that is built from a tree keeps the operands of its sequence and has a place
for each of its operators. -/
theorem build_conserves {source : Source} {tree : Tree Token Operator} {node : Node}
    (build_eq : tree.build (nodeGrammar source) = .ok node) : Conserves tree node := by
  refine build_induction ?leaf ?group tree build_eq
  case leaf =>
    exact fun token => ⟨terminals_ofToken source token, jointCount_ofToken source token,
      .leaf (tag?_ofToken source token) trivial⟩
  case group =>
    intro operators operands nodes node each node_eq
    obtain ⟨terminals_all, jointCount_all, branching_all⟩ := conserves_all each
    obtain ⟨terminals_eq, jointCount_eq, branching⟩ := ofGroup_conserves node_eq branching_all
    refine ⟨?_, ?_, branching⟩
    · rw [terminals_eq, terminals_all, Tree.elements_group, operandsOf_elementsOf]
    · rw [jointCount_eq, jointCount_all, Tree.elements_group, length_operatorsOf_elementsOf]

/-- What holds of the leaf of every operand holds of every leaf that is built. -/
theorem build_branching {source : Source} {tree : Tree Token Operator} {node : Node}
    (build_eq : tree.build (nodeGrammar source) = .ok node) {holds : Node → Prop}
    (each : ∀ token ∈ operandsOf tree.elements, holds (ofToken source token)) :
    node.Branching holds := by
  refine build_induction (motive := fun tree node =>
    (∀ token ∈ operandsOf tree.elements, holds (ofToken source token)) → node.Branching holds)
    ?leaf ?group tree build_eq each
  case leaf =>
    exact fun token each => .leaf (tag?_ofToken source token) (each token List.mem_cons_self)
  case group =>
    intro operators operands nodes node pairs node_eq each
    rw [Tree.elements_group, operandsOf_elementsOf] at each
    refine (ofGroup_conserves node_eq ?_).2.2
    clear node_eq
    induction pairs with
    | nil => simp
    | cons built _ ih =>
        rw [List.flatMap_cons, List.forall_mem_append] at each
        exact List.forall_mem_cons.mpr ⟨built each.1, ih each.2⟩

end Node

end OperatorMarkup
