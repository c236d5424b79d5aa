import OperatorMarkup.Proofs.Except
import OperatorMarkup.Proofs.Grouping.Tree

/-!
# Grouping builds ordered trees

While a sequence is read, every open group is an ordered group that lacks its
last operand, each starts inside the one around it, and together they hold what
has been read.  Reading one element keeps this up, so the tree at the end is
ordered and was made of the whole sequence.
-/

namespace OperatorMarkup

namespace Grouping

variable {α ο : Type} {order : ο → ο → Except Error Decision}

open Grouping.Tree

/-! ## Open groups -/

namespace Frame

/-- An open group is ordered as far as it goes. -/
inductive Ordered (order : ο → ο → Except Error Decision) : Frame ο (Tree α ο) → Prop
  | begin {op : ο} {operand : Tree α ο} (ordered : operand.Ordered order)
      (ends : operand.EndsBefore order op) : Ordered order (.begin op operand)
  | extend {frame : Frame ο (Tree α ο)} {op : ο} {operand : Tree α ο}
      (frameOrdered : Ordered order frame)
      (fused : order frame.last op = .ok .aggregate)
      (ordered : operand.Ordered order)
      (starts : operand.StartsInside order frame.last)
      (ends : operand.EndsBefore order op) : Ordered order (frame.extend op operand)

/-- The sequence that an open group was made of so far. -/
def elements (frame : Frame ο (Tree α ο)) : List (Element α ο) :=
  elementsOf frame.operators frame.operands.reverse

/-- The left spine that an open group will have. -/
def leftSpine (frame : Frame ο (Tree α ο)) : List (List ο) :=
  frame.operators :: leftSpineOf frame.operands.reverse

/-- The tree of an open group closed behind its last operand. -/
def toTree (frame : Frame ο (Tree α ο)) (last : Tree α ο) : Tree α ο :=
  .group frame.operators (frame.operands.reverse ++ [last])

theorem operators_eq (frame : Frame ο (Tree α ο)) :
    frame.operators = frame.earlier.reverse ++ [frame.last] := by
  simp [operators]

theorem operators_extend (frame : Frame ο (Tree α ο)) (op : ο) (operand : Tree α ο) :
    (frame.extend op operand).operators = frame.operators ++ [op] := by
  simp [operators, extend]

private theorem zip_tail_append (earlier : List ο) (last next : ο) :
    (earlier ++ [last] ++ [next]).zip (earlier ++ [last] ++ [next]).tail =
      (earlier ++ [last]).zip (earlier ++ [last]).tail ++ [(last, next)] := by
  induction earlier with
  | nil => rfl
  | cons first earlier ih =>
      cases earlier with
      | nil => rfl
      | cons second earlier =>
          simp only [List.cons_append, List.tail_cons, List.zip_cons_cons] at ih ⊢
          rw [ih]

namespace Ordered

variable {frame : Frame ο (Tree α ο)}

theorem length_operands (ordered : frame.Ordered order) :
    frame.operands.length = frame.earlier.length + 1 := by
  induction ordered with
  | begin => rfl
  | extend _ _ _ _ _ ih => simp [Frame.extend, ih]

theorem length_operators (ordered : frame.Ordered order) :
    frame.operands.reverse.length = frame.operators.length := by
  simp [operators, ordered.length_operands]

theorem operands_ne_nil (ordered : frame.Ordered order) : frame.operands.reverse ≠ [] := by
  intro empty
  have length_eq := ordered.length_operators
  simp [empty, operators] at length_eq

theorem fused (ordered : frame.Ordered order) :
    ∀ pair ∈ frame.operators.zip frame.operators.tail,
      order pair.1 pair.2 = .ok .aggregate := by
  induction ordered with
  | begin => simp [operators, Frame.begin]
  | @extend frame op operand _ fused _ _ _ ih =>
      intro pair member
      rw [operators_extend, operators_eq, zip_tail_append, ← operators_eq] at member
      rcases List.mem_append.mp member with earlier | last
      · exact ih pair earlier
      · rw [List.mem_singleton.mp last]
        exact fused

theorem starts (ordered : frame.Ordered order) :
    ∀ pair ∈ frame.earlier.reverse.zip frame.operands.reverse.tail,
      StartsInside order pair.1 pair.2 := by
  induction ordered with
  | begin => simp [Frame.begin]
  | @extend frame op operand frameOrdered _ _ starts _ ih =>
      intro pair member
      have length_eq := frameOrdered.length_operands
      simp only [Frame.extend, List.reverse_cons] at member
      rw [List.tail_append_of_ne_nil frameOrdered.operands_ne_nil,
        List.zip_append (by simp [length_eq])] at member
      rcases List.mem_append.mp member with earlier | last
      · exact ih pair earlier
      · rw [List.mem_singleton.mp last]
        exact starts

theorem ends (ordered : frame.Ordered order) :
    ∀ pair ∈ frame.operands.reverse.zip frame.operators, EndsBefore order pair.2 pair.1 := by
  induction ordered with
  | begin _ ends => simpa [operators, Frame.begin] using ends
  | @extend frame op operand frameOrdered _ _ _ ends ih =>
      intro pair member
      rw [operators_extend, Frame.extend, List.reverse_cons,
        List.zip_append frameOrdered.length_operators] at member
      rcases List.mem_append.mp member with earlier | last
      · exact ih pair earlier
      · rw [List.mem_singleton.mp last]
        exact ends

theorem within (ordered : frame.Ordered order) :
    ∀ operand ∈ frame.operands, operand.Ordered order := by
  induction ordered with
  | begin ordered => simpa [Frame.begin] using ordered
  | extend _ _ ordered _ _ ih =>
      intro operand member
      rcases List.mem_cons.mp member with rfl | earlier
      · exact ordered
      · exact ih operand earlier

/-- A last operand that starts inside an open group closes it to an ordered
tree. -/
theorem toTree (ordered : frame.Ordered order) {last : Tree α ο}
    (lastOrdered : last.Ordered order) (lastStarts : last.StartsInside order frame.last) :
    (frame.toTree last).Ordered order := by
  refine .group (by simp [operators]) ?_ ordered.fused ?_ ?_ ?_
  · simp [ordered.length_operands, operators]
  · intro pair member
    rw [operators_eq, List.tail_append_of_ne_nil ordered.operands_ne_nil,
      List.zip_append (by simp [ordered.length_operands])] at member
    rcases List.mem_append.mp member with earlier | last
    · exact ordered.starts pair earlier
    · rw [List.mem_singleton.mp last]
      exact lastStarts
  · intro pair member
    rw [← List.append_nil frame.operators, List.zip_append ordered.length_operators,
      List.zip_nil_right, List.append_nil] at member
    exact ordered.ends pair member
  · intro operand member
    rcases List.mem_append.mp member with earlier | last
    · exact ordered.within operand (List.mem_reverse.mp earlier)
    · rw [List.mem_singleton.mp last]
      exact lastOrdered

theorem elements_extend (ordered : frame.Ordered order) (op : ο) (operand : Tree α ο) :
    (frame.extend op operand).elements =
      frame.elements ++ operand.elements ++ [.operator op] := by
  rw [elements, operators_extend, Frame.extend, List.reverse_cons,
    elementsOf_append_operator ordered.length_operators]
  rfl

theorem elements_toTree (ordered : frame.Ordered order) (last : Tree α ο) :
    (frame.toTree last).elements = frame.elements ++ last.elements :=
  elementsOf_append_operand ordered.length_operators last

/-- Closing an open group leaves the groups that it starts with. -/
theorem leftSpine_toTree (ordered : frame.Ordered order) (last : Tree α ο) :
    (frame.toTree last).leftSpine = frame.leftSpine := by
  rw [Frame.toTree, Tree.leftSpine, leftSpineOf_append ordered.operands_ne_nil]
  rfl

/-- Extending an open group leaves the groups that it starts with, and their
first operators. -/
theorem startsInside_extend (ordered : frame.Ordered order) {outer op : ο} {operand : Tree α ο}
    (starts : SpineStartsInside order outer frame.leftSpine) :
    SpineStartsInside order outer (frame.extend op operand).leftSpine := by
  intro operators member first firstEq
  rw [Frame.leftSpine, operators_extend, Frame.extend, List.reverse_cons,
    leftSpineOf_append ordered.operands_ne_nil] at member
  rcases List.mem_cons.mp member with rfl | inner
  · refine starts frame.operators List.mem_cons_self first ?_
    have nonempty : frame.operators ≠ [] := by simp [Frame.operators]
    obtain ⟨head, rest, operators_eq⟩ := List.exists_cons_of_ne_nil nonempty
    simpa [operators_eq] using firstEq
  · exact starts operators (List.mem_cons_of_mem _ inner) first firstEq

end Ordered

theorem elements_begin (op : ο) (operand : Tree α ο) :
    (Frame.begin op operand).elements = operand.elements ++ [.operator op] := by
  simp [elements, operators, Frame.begin, elementsOf]

end Frame

/-! ## Stacks of open groups -/

/-- Open groups are ordered, and each starts inside the one around it. -/
inductive StackOrdered (order : ο → ο → Except Error Decision) : List (Frame ο (Tree α ο)) → Prop
  | nil : StackOrdered order []
  | cons {frame : Frame ο (Tree α ο)} {stack : List (Frame ο (Tree α ο))}
      (frameOrdered : frame.Ordered order)
      (starts : ∀ outer ∈ stack.head?, SpineStartsInside order outer.last frame.leftSpine)
      (stackOrdered : StackOrdered order stack) : StackOrdered order (frame :: stack)

/-- The sequence that open groups were made of so far, outermost first. -/
def stackElements : List (Frame ο (Tree α ο)) → List (Element α ο)
  | [] => []
  | frame :: stack => stackElements stack ++ frame.elements

namespace State

/-- The open groups are ordered, and what was just read is a single operand. -/
def Ordered (order : ο → ο → Except Error Decision) : State ο (Tree α ο) → Prop
  | operandDue stack => StackOrdered order stack
  | operatorDue stack current => StackOrdered order stack ∧ ∃ operand, current = .leaf operand

/-- The sequence read so far. -/
def elements : State ο (Tree α ο) → List (Element α ο)
  | operandDue stack => stackElements stack
  | operatorDue stack current => stackElements stack ++ current.elements

end State

/-! ## Reading one element -/

variable {mayStart mayEnd : ο → Except Error Unit}

/-- Closing an open group always succeeds where nodes are trees. -/
theorem trees_close (frame : Frame ο (Tree α ο)) (last : Tree α ο) :
    (Grammar.trees order mayStart mayEnd).close frame last = .ok (frame.toTree last) := by
  simp [Grammar.close, Grammar.trees, Frame.toTree]

/-- A tree lies behind ordered open groups and starts inside the innermost of
them. -/
structure Behind (order : ο → ο → Except Error Decision) (stack : List (Frame ο (Tree α ο)))
    (current : Tree α ο) : Prop where
  stackOrdered : StackOrdered order stack
  ordered : current.Ordered order
  starts : ∀ outer ∈ stack.head?, current.StartsInside order outer.last

namespace Behind

variable {frame : Frame ο (Tree α ο)} {stack : List (Frame ο (Tree α ο))} {current : Tree α ο}

theorem leaf (stackOrdered : StackOrdered order stack) (operand : α) :
    Behind order stack (.leaf operand) :=
  ⟨stackOrdered, .leaf operand, fun _ _ => startsInside_leaf _ _ _⟩

theorem frameOrdered (behind : Behind order (frame :: stack) current) : frame.Ordered order := by
  cases behind.stackOrdered with
  | cons frameOrdered _ _ => exact frameOrdered

/-- Closing the innermost group puts its tree behind the others. -/
theorem close (behind : Behind order (frame :: stack) current) :
    Behind order stack (frame.toTree current) := by
  cases behind.stackOrdered with
  | cons frameOrdered frameStarts stackOrdered =>
      constructor
      · exact stackOrdered
      · exact frameOrdered.toTree behind.ordered (behind.starts frame rfl)
      · intro outer outerMem
        rw [StartsInside, frameOrdered.leftSpine_toTree]
        exact frameStarts outer outerMem

theorem elements_close (behind : Behind order (frame :: stack) current) :
    stackElements stack ++ (frame.toTree current).elements =
      stackElements (frame :: stack) ++ current.elements := by
  rw [behind.frameOrdered.elements_toTree, stackElements, List.append_assoc]

/-- Starting a group behind the tree leaves the groups ordered. -/
theorem begin (behind : Behind order stack current) {op : ο} (ends : current.EndsBefore order op)
    (right : ∀ outer ∈ stack.head?, order outer.last op = .ok .right) :
    StackOrdered order (.begin op current :: stack) := by
  refine .cons (.begin behind.ordered ends) ?_ behind.stackOrdered
  intro outer outerMem operators member first firstEq
  have spine_eq : (Frame.begin op current).leftSpine = [op] :: current.leftSpine := rfl
  rw [spine_eq] at member
  rcases List.mem_cons.mp member with rfl | inner
  · rw [← Option.some.inj firstEq]
    exact right outer outerMem
  · exact behind.starts outer outerMem operators inner first firstEq

/-- Joining the innermost group behind the tree leaves the groups ordered. -/
theorem extend (behind : Behind order (frame :: stack) current) {op : ο}
    (ends : current.EndsBefore order op) (fused : order frame.last op = .ok .aggregate) :
    StackOrdered order (frame.extend op current :: stack) := by
  cases behind.stackOrdered with
  | cons frameOrdered frameStarts stackOrdered =>
      refine .cons ?_ ?_ stackOrdered
      · exact .extend frameOrdered fused behind.ordered (behind.starts frame rfl) ends
      · intro outer outerMem
        exact frameOrdered.startsInside_extend (frameStarts outer outerMem)

end Behind

/-- A group that an operator ends ends to the left of that operator, with all
groups at its end. -/
theorem Frame.toTree_endsBefore {op : ο} {frame : Frame ο (Tree α ο)} {last : Tree α ο}
    (decision : order frame.last op = .ok .left) (ends : last.EndsBefore order op) :
    (frame.toTree last).EndsBefore order op := by
  intro operators member final finalEq
  rw [Frame.toTree, rightSpine, rightSpineOf_append] at member
  rcases List.mem_cons.mp member with rfl | inner
  · rw [frame.operators_eq, List.getLast?_concat] at finalEq
    rw [← Option.some.inj finalEq]
    exact decision
  · exact ends operators inner final finalEq

/-- An operator behind an ordered tree leaves the open groups ordered and is
added to what they hold. -/
theorem place_ordered {op : ο} {stack placed : List (Frame ο (Tree α ο))} {current : Tree α ο}
    (behind : Behind order stack current) (ends : current.EndsBefore order op)
    (place_eq : (Grammar.trees order mayStart mayEnd).place op stack current = .ok placed) :
    StackOrdered order placed ∧
      stackElements placed = stackElements stack ++ current.elements ++ [.operator op] := by
  induction stack generalizing current with
  | nil =>
      rw [Grammar.place_nil] at place_eq
      obtain ⟨_, _, rfl⟩ := Except.map_eq_ok_iff.mp place_eq
      exact ⟨behind.begin ends (by simp), by simp [stackElements, Frame.elements_begin]⟩
  | cons frame stack ih =>
      cases decision : order frame.last op with
      | error error =>
          rw [Grammar.place_error _ decision] at place_eq
          contradiction
      | ok answer =>
          cases answer with
          | left =>
              rw [Grammar.place_left _ decision, trees_close] at place_eq
              have closed := ih behind.close (Frame.toTree_endsBefore decision ends) place_eq
              rw [behind.elements_close] at closed
              exact closed
          | right =>
              rw [Grammar.place_right _ decision] at place_eq
              obtain ⟨_, _, rfl⟩ := Except.map_eq_ok_iff.mp place_eq
              constructor
              · apply behind.begin ends
                intro outer outerMem
                rw [← Option.some.inj outerMem]
                exact decision
              · simp [stackElements, Frame.elements_begin]
          | aggregate =>
              rw [Grammar.place_aggregate _ decision] at place_eq
              obtain rfl := Except.ok.inj place_eq
              constructor
              · exact behind.extend ends decision
              · simp [stackElements, behind.frameOrdered.elements_extend]

theorem step_ordered {state next : State ο (Tree α ο)} {element : Element α ο}
    (ordered : state.Ordered order)
    (step_eq : (Grammar.trees order mayStart mayEnd).step state element = .ok next) :
    next.Ordered order ∧ next.elements = state.elements ++ [element] := by
  cases state with
  | operandDue stack =>
      cases element with
      | operator op => contradiction
      | operand value =>
          rw [Grammar.step_operand] at step_eq
          obtain ⟨current, leaf_eq, rfl⟩ := Except.map_eq_ok_iff.mp step_eq
          obtain rfl := Except.ok.inj leaf_eq
          exact ⟨⟨ordered, value, rfl⟩, rfl⟩
  | operatorDue stack current =>
      cases element with
      | operand value => contradiction
      | operator op =>
          obtain ⟨stackOrdered, operand, rfl⟩ := ordered
          rw [Grammar.step_operator] at step_eq
          obtain ⟨placed, place_eq, rfl⟩ := Except.map_eq_ok_iff.mp step_eq
          exact place_ordered (.leaf stackOrdered operand) (endsBefore_leaf _ _ _) place_eq

/-! ## Reading a sequence -/

theorem read_ordered {state last : State ο (Tree α ο)} {elements : List (Element α ο)}
    (ordered : state.Ordered order)
    (read_eq : (Grammar.trees order mayStart mayEnd).read state elements = .ok last) :
    last.Ordered order ∧ last.elements = state.elements ++ elements := by
  induction elements generalizing state with
  | nil =>
      obtain rfl := Except.ok.inj read_eq
      simpa using ordered
  | cons element elements ih =>
      rw [Grammar.read_cons] at read_eq
      obtain ⟨next, step_eq, rest_eq⟩ := Except.bind_eq_ok_iff.mp read_eq
      have step := step_ordered ordered step_eq
      have rest := ih step.1 rest_eq
      refine ⟨rest.1, ?_⟩
      rw [rest.2, step.2, List.append_assoc]
      rfl

theorem closeAll_ordered {stack : List (Frame ο (Tree α ο))} {current tree : Tree α ο}
    (behind : Behind order stack current)
    (close_eq : (Grammar.trees order mayStart mayEnd).closeAll stack current = .ok tree) :
    tree.Ordered order ∧ tree.elements = stackElements stack ++ current.elements := by
  induction stack generalizing current with
  | nil =>
      obtain rfl := Except.ok.inj close_eq
      exact ⟨behind.ordered, rfl⟩
  | cons frame stack ih =>
      rw [Grammar.closeAll_cons, trees_close] at close_eq
      obtain ⟨_, _, rest_eq⟩ := Except.bind_eq_ok_iff.mp close_eq
      rw [← behind.elements_close]
      exact ih behind.close rest_eq

/-- The tree of a sequence is ordered and was made of that sequence. -/
theorem ordered_of_group_eq_ok {elements : List (Element α ο)} {tree : Tree α ο}
    (group_eq : (Grammar.trees order mayStart mayEnd).group (elements.map .ok) = .ok tree) :
    tree.Ordered order ∧ tree.elements = elements := by
  rw [Grammar.group_map_ok] at group_eq
  obtain ⟨last, read_eq, finish_eq⟩ := Except.bind_eq_ok_iff.mp group_eq
  have started : State.Ordered order (.operandDue ([] : List (Frame ο (Tree α ο)))) := .nil
  have final := read_ordered started read_eq
  cases last with
  | operandDue stack => contradiction
  | operatorDue stack current =>
      obtain ⟨⟨stackOrdered, operand, rfl⟩, elements_eq⟩ := final
      have closed := closeAll_ordered (.leaf stackOrdered operand) finish_eq
      exact ⟨closed.1, closed.2.trans elements_eq⟩

end Grouping

end OperatorMarkup
