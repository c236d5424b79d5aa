import OperatorMarkup.Proofs.Grouping.Reading

/-!
# Nodes from trees

A grammar that builds nodes groups a sequence as the grammar of trees does, and
its node is what the tree builds, as long as every ordered tree over the sequence
can be built.  What is grouped can then be studied apart from what is built.
-/

namespace OperatorMarkup

namespace Grouping

variable {α ο ν : Type}

mutual

/-- The node that a grammar builds from a tree. -/
def Tree.build (grammar : Grammar (Except Error) α ο ν) : Tree α ο → Except Error ν
  | .leaf operand => grammar.leaf operand
  | .group operators operands => (Tree.buildAll grammar operands).bind (grammar.node operators)

/-- The nodes that a grammar builds from some trees. -/
def Tree.buildAll (grammar : Grammar (Except Error) α ο ν) :
    List (Tree α ο) → Except Error (List ν)
  | [] => .ok []
  | tree :: rest =>
      (Tree.build grammar tree).bind fun node =>
        (Tree.buildAll grammar rest).map (node :: ·)

end

namespace Tree

variable {grammar : Grammar (Except Error) α ο ν}

theorem buildAll_cons_eq_ok_iff {tree : Tree α ο} {rest : List (Tree α ο)} {nodes : List ν} :
    buildAll grammar (tree :: rest) = .ok nodes ↔
      ∃ node others, tree.build grammar = .ok node ∧ buildAll grammar rest = .ok others ∧
        nodes = node :: others := by
  rw [buildAll, Except.bind_eq_ok_iff]
  constructor
  · rintro ⟨node, build_eq, rest_eq⟩
    obtain ⟨others, others_eq, rfl⟩ := Except.map_eq_ok_iff.mp rest_eq
    exact ⟨node, others, build_eq, others_eq, rfl⟩
  · rintro ⟨node, others, build_eq, others_eq, rfl⟩
    exact ⟨node, build_eq, Except.map_eq_ok_iff.mpr ⟨others, others_eq, rfl⟩⟩

theorem buildAll_append {first second : List (Tree α ο)} {firstNodes secondNodes : List ν}
    (first_eq : buildAll grammar first = .ok firstNodes)
    (second_eq : buildAll grammar second = .ok secondNodes) :
    buildAll grammar (first ++ second) = .ok (firstNodes ++ secondNodes) := by
  induction first generalizing firstNodes with
  | nil =>
      obtain rfl := Except.ok.inj first_eq
      exact second_eq
  | cons tree rest ih =>
      obtain ⟨node, others, build_eq, others_eq, rfl⟩ := buildAll_cons_eq_ok_iff.mp first_eq
      exact buildAll_cons_eq_ok_iff.mpr ⟨node, _, build_eq, ih others_eq, rfl⟩

theorem buildAll_singleton {tree : Tree α ο} {node : ν} (build_eq : tree.build grammar = .ok node) :
    buildAll grammar [tree] = .ok [node] :=
  buildAll_cons_eq_ok_iff.mpr ⟨node, [], build_eq, rfl, rfl⟩

theorem buildAll_reverse {trees : List (Tree α ο)} {nodes : List ν}
    (build_eq : buildAll grammar trees = .ok nodes) :
    buildAll grammar trees.reverse = .ok nodes.reverse := by
  induction trees generalizing nodes with
  | nil =>
      obtain rfl := Except.ok.inj build_eq
      rfl
  | cons tree rest ih =>
      obtain ⟨node, others, node_eq, others_eq, rfl⟩ := buildAll_cons_eq_ok_iff.mp build_eq
      rw [List.reverse_cons, List.reverse_cons]
      exact buildAll_append (ih others_eq) (buildAll_singleton node_eq)

theorem length_of_buildAll {trees : List (Tree α ο)} {nodes : List ν}
    (build_eq : buildAll grammar trees = .ok nodes) :
    nodes.length = trees.length := by
  induction trees generalizing nodes with
  | nil =>
      cases build_eq
      rfl
  | cons tree trees ih =>
      obtain ⟨node, others, _, others_eq, rfl⟩ := buildAll_cons_eq_ok_iff.mp build_eq
      rw [List.length_cons, List.length_cons, ih others_eq]

theorem exists_buildAll {trees : List (Tree α ο)}
    (each : ∀ tree ∈ trees, ∃ node, tree.build grammar = .ok node) :
    ∃ nodes, buildAll grammar trees = .ok nodes := by
  induction trees with
  | nil => exact ⟨[], rfl⟩
  | cons tree trees ih =>
      rw [List.forall_mem_cons] at each
      obtain ⟨node, node_eq⟩ := each.1
      obtain ⟨nodes, nodes_eq⟩ := ih each.2
      exact ⟨node :: nodes, buildAll_cons_eq_ok_iff.mpr ⟨node, nodes, node_eq, nodes_eq, rfl⟩⟩

end Tree

/-! ## States that build each other -/

variable (grammar : Grammar (Except Error) α ο ν)

/-- The grammar of trees with the questions of another grammar. -/
abbrev treesOf : Grammar (Except Error) α ο (Tree α ο) :=
  Grammar.trees grammar.order grammar.mayStart grammar.mayEnd

/-- An open group over nodes that are built from an open group over trees. -/
structure FrameBuilds (frame : Frame ο (Tree α ο)) (built : Frame ο ν) : Prop where
  last_eq : built.last = frame.last
  earlier_eq : built.earlier = frame.earlier
  operands_eq : Tree.buildAll grammar frame.operands = .ok built.operands

/-- Open groups over nodes that are built from open groups over trees. -/
inductive StackBuilds : List (Frame ο (Tree α ο)) → List (Frame ο ν) → Prop
  | nil : StackBuilds [] []
  | cons {frame : Frame ο (Tree α ο)} {built : Frame ο ν} {stack : List (Frame ο (Tree α ο))}
      {builtStack : List (Frame ο ν)} (frameBuilds : FrameBuilds grammar frame built)
      (stackBuilds : StackBuilds stack builtStack) :
      StackBuilds (frame :: stack) (built :: builtStack)

/-- A state over nodes that is built from a state over trees. -/
inductive StateBuilds : State ο (Tree α ο) → State ο ν → Prop
  | operandDue {stack : List (Frame ο (Tree α ο))} {builtStack : List (Frame ο ν)}
      (stackBuilds : StackBuilds grammar stack builtStack) :
      StateBuilds (.operandDue stack) (.operandDue builtStack)
  | operatorDue {stack : List (Frame ο (Tree α ο))} {builtStack : List (Frame ο ν)}
      {tree : Tree α ο} {node : ν} (stackBuilds : StackBuilds grammar stack builtStack)
      (build_eq : tree.build grammar = .ok node) :
      StateBuilds (.operatorDue stack tree) (.operatorDue builtStack node)

variable {grammar}

theorem FrameBuilds.begin {op : ο} {tree : Tree α ο} {node : ν}
    (build_eq : tree.build grammar = .ok node) :
    FrameBuilds grammar (.begin op tree) (.begin op node) :=
  ⟨rfl, rfl, Tree.buildAll_singleton build_eq⟩

theorem FrameBuilds.extend {op : ο} {frame : Frame ο (Tree α ο)} {built : Frame ο ν}
    {tree : Tree α ο} {node : ν} (frameBuilds : FrameBuilds grammar frame built)
    (build_eq : tree.build grammar = .ok node) :
    FrameBuilds grammar (frame.extend op tree) (built.extend op node) := by
  obtain ⟨last_eq, earlier_eq, operands_eq⟩ := frameBuilds
  refine ⟨rfl, ?_, Tree.buildAll_cons_eq_ok_iff.mpr ⟨node, _, build_eq, operands_eq, rfl⟩⟩
  simp [Frame.extend, last_eq, earlier_eq]

/-- Closing an open group over nodes builds the tree of the group. -/
theorem FrameBuilds.close {frame : Frame ο (Tree α ο)} {built : Frame ο ν} {tree : Tree α ο}
    {node : ν} (frameBuilds : FrameBuilds grammar frame built)
    (build_eq : tree.build grammar = .ok node) :
    grammar.close built node = (frame.toTree tree).build grammar := by
  obtain ⟨last_eq, earlier_eq, operands_eq⟩ := frameBuilds
  have all_eq := Tree.buildAll_append (Tree.buildAll_reverse operands_eq)
    (Tree.buildAll_singleton build_eq)
  rw [Frame.toTree, Tree.build, all_eq]
  simp [Grammar.close, Frame.operators, last_eq, earlier_eq, Except.bind]

/-- A group that an operator starts is built alike, or refused alike. -/
theorem StackBuilds.begin (op : ο) {stack : List (Frame ο (Tree α ο))}
    {builtStack : List (Frame ο ν)} {tree : Tree α ο} {node : ν}
    (stackBuilds : StackBuilds grammar stack builtStack)
    (build_eq : tree.build grammar = .ok node) :
    Except.Agree (StackBuilds grammar)
      ((treesOf grammar).mayStart op |>.map fun _ => .begin op tree :: stack)
      (grammar.mayStart op |>.map fun _ => .begin op node :: builtStack) := by
  cases may : grammar.mayStart op with
  | error error => simp [Grammar.trees, may, Except.map, Except.Agree]
  | ok _ =>
      simp only [Grammar.trees, may, Except.map]
      exact .cons (.begin build_eq) stackBuilds

/-! ## Grouping and building -/

section Buildable

variable {holds : Element α ο → Prop}
  (buildable : ∀ tree : Tree α ο, tree.Ordered grammar.order →
    (∀ element ∈ tree.elements, holds element) → ∃ node, tree.build grammar = .ok node)

include buildable

/-- The tree of a group that is closed can be built. -/
theorem exists_build_toTree {frame : Frame ο (Tree α ο)} {stack : List (Frame ο (Tree α ο))}
    {tree : Tree α ο} (behind : Behind grammar.order (frame :: stack) tree)
    (allHold : ∀ element ∈ stackElements (frame :: stack) ++ tree.elements, holds element) :
    ∃ node, (frame.toTree tree).build grammar = .ok node := by
  apply buildable _ behind.close.ordered
  intro element member
  apply allHold
  rw [← behind.elements_close]
  exact List.mem_append_right _ member

theorem place_agree (op : ο) {stack : List (Frame ο (Tree α ο))} {builtStack : List (Frame ο ν)}
    {tree : Tree α ο} {node : ν} (behind : Behind grammar.order stack tree)
    (allHold : ∀ element ∈ stackElements stack ++ tree.elements, holds element)
    (stackBuilds : StackBuilds grammar stack builtStack)
    (build_eq : tree.build grammar = .ok node) :
    Except.Agree (StackBuilds grammar) ((treesOf grammar).place op stack tree)
      (grammar.place op builtStack node) := by
  induction stackBuilds generalizing tree node with
  | nil =>
      rw [Grammar.place_nil, Grammar.place_nil]
      exact StackBuilds.begin op .nil build_eq
  | @cons frame built stack builtStack frameBuilds stackBuilds ih =>
      have decision_eq : grammar.order built.last op = grammar.order frame.last op := by
        rw [frameBuilds.last_eq]
      cases decision : grammar.order frame.last op with
      | error error =>
          rw [Grammar.place_error _ decision, Grammar.place_error _ (decision_eq.trans decision)]
          rfl
      | ok answer =>
          cases answer with
          | left =>
              obtain ⟨closed, closed_eq⟩ := exists_build_toTree buildable behind allHold
              rw [Grammar.place_left _ decision, trees_close,
                Grammar.place_left _ (decision_eq.trans decision), frameBuilds.close build_eq,
                closed_eq]
              rw [← behind.elements_close] at allHold
              exact ih behind.close allHold closed_eq
          | right =>
              rw [Grammar.place_right _ decision,
                Grammar.place_right _ (decision_eq.trans decision)]
              exact StackBuilds.begin op (.cons frameBuilds stackBuilds) build_eq
          | aggregate =>
              rw [Grammar.place_aggregate _ decision,
                Grammar.place_aggregate _ (decision_eq.trans decision)]
              exact .cons (frameBuilds.extend build_eq) stackBuilds

theorem closeAll_agree {stack : List (Frame ο (Tree α ο))} {builtStack : List (Frame ο ν)}
    {tree : Tree α ο} {node : ν} (behind : Behind grammar.order stack tree)
    (allHold : ∀ element ∈ stackElements stack ++ tree.elements, holds element)
    (stackBuilds : StackBuilds grammar stack builtStack)
    (build_eq : tree.build grammar = .ok node) :
    Except.Agree (fun tree node => tree.build grammar = .ok node)
      ((treesOf grammar).closeAll stack tree) (grammar.closeAll builtStack node) := by
  induction stackBuilds generalizing tree node with
  | nil => exact build_eq
  | @cons frame built stack builtStack frameBuilds _ ih =>
      obtain ⟨closed, closed_eq⟩ := exists_build_toTree buildable behind allHold
      rw [Grammar.closeAll_cons, Grammar.closeAll_cons, trees_close, frameBuilds.last_eq,
        frameBuilds.close build_eq, closed_eq]
      cases may : grammar.mayEnd frame.last with
      | error error => simp [Grammar.trees, may, Except.bind, Except.Agree]
      | ok _ =>
          simp only [Grammar.trees, may, Except.bind]
          rw [← behind.elements_close] at allHold
          exact ih behind.close allHold closed_eq

theorem finish_agree {state : State ο (Tree α ο)} {built : State ο ν}
    (ordered : state.Ordered grammar.order) (allHold : ∀ element ∈ state.elements, holds element)
    (builds : StateBuilds grammar state built) :
    Except.Agree (fun tree node => tree.build grammar = .ok node)
      ((treesOf grammar).finish state) (grammar.finish built) := by
  cases builds with
  | operandDue _ => exact rfl
  | operatorDue stackBuilds build_eq =>
      obtain ⟨stackOrdered, operand, rfl⟩ := ordered
      exact closeAll_agree buildable (.leaf stackOrdered operand) allHold stackBuilds build_eq

variable (leaves : ∀ operand, ∃ node, grammar.leaf operand = .ok node)

include leaves

theorem step_agree (element : Element α ο) {state : State ο (Tree α ο)} {built : State ο ν}
    (ordered : state.Ordered grammar.order) (allHold : ∀ element ∈ state.elements, holds element)
    (builds : StateBuilds grammar state built) :
    Except.Agree (StateBuilds grammar) ((treesOf grammar).step state element)
      (grammar.step built element) := by
  cases builds with
  | operandDue stackBuilds =>
      cases element with
      | operator op => exact rfl
      | operand value =>
          obtain ⟨node, leaf_eq⟩ := leaves value
          rw [Grammar.step_operand, Grammar.step_operand, leaf_eq]
          exact .operatorDue stackBuilds leaf_eq
  | operatorDue stackBuilds build_eq =>
      cases element with
      | operand value => exact rfl
      | operator op =>
          obtain ⟨stackOrdered, operand, rfl⟩ := ordered
          rw [Grammar.step_operator, Grammar.step_operator]
          have placed := place_agree buildable op (.leaf stackOrdered operand) allHold stackBuilds
            build_eq
          exact placed.map fun _ _ => .operandDue

theorem read_agree (elements : List (Element α ο)) {state : State ο (Tree α ο)}
    {built : State ο ν} (ordered : state.Ordered grammar.order)
    (allHold : ∀ element ∈ state.elements ++ elements, holds element)
    (builds : StateBuilds grammar state built) :
    Except.Agree (StateBuilds grammar) ((treesOf grammar).read state elements)
      (grammar.read built elements) := by
  induction elements generalizing state built with
  | nil => exact builds
  | cons element elements ih =>
      have step := step_agree buildable leaves element ordered
        (fun other member => allHold other (List.mem_append_left _ member)) builds
      rw [Grammar.read_cons, Grammar.read_cons]
      apply step.bind
      intro next builtNext step_eq nextBuilds
      have nextOrdered := step_ordered ordered step_eq
      apply ih nextOrdered.1 _ nextBuilds
      rw [nextOrdered.2, List.append_assoc]
      exact allHold

/-- A sequence is grouped alike over trees and over nodes, and the node is what
the tree builds. -/
theorem group_agree {elements : List (Element α ο)}
    (allHold : ∀ element ∈ elements, holds element) :
    Except.Agree (fun tree node => tree.build grammar = .ok node)
      ((treesOf grammar).group (elements.map .ok)) (grammar.group (elements.map .ok)) := by
  have started : State.Ordered grammar.order (.operandDue ([] : List (Frame ο (Tree α ο)))) := .nil
  have read := read_agree buildable leaves elements started
    (by simpa [State.elements, stackElements] using allHold) (.operandDue .nil)
  rw [Grammar.group_map_ok, Grammar.group_map_ok]
  apply read.bind
  intro last builtLast read_eq builds
  have lastOrdered := read_ordered started read_eq
  apply finish_agree buildable lastOrdered.1 _ builds
  rw [lastOrdered.2]
  simpa [State.elements, stackElements] using allHold

/-- A sequence with a failure fails alike over trees and over nodes. -/
theorem group_agree_of_failure {elements : List (Element α ο)}
    (allHold : ∀ element ∈ elements, holds element) (error : Error)
    (rest : List (Except Error (Element α ο))) :
    Except.Agree (fun tree node => tree.build grammar = .ok node)
      ((treesOf grammar).group (elements.map .ok ++ .error error :: rest))
      (grammar.group (elements.map .ok ++ .error error :: rest)) := by
  have started : State.Ordered grammar.order (.operandDue ([] : List (Frame ο (Tree α ο)))) := .nil
  have read := read_agree buildable leaves elements started
    (by simpa [State.elements, stackElements] using allHold) (.operandDue .nil)
  rw [Grammar.group_append_error, Grammar.group_append_error]
  exact read.bind fun _ _ _ _ => rfl

end Buildable

end Grouping

end OperatorMarkup
