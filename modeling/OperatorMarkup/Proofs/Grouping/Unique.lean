import OperatorMarkup.Proofs.Grouping.Reading

/-!
# The ordered tree of a sequence is unique

Reading the sequence of an ordered tree amounts to having the tree as one
operand: whatever comes next finds its open right side closed again.  So grouping
gives every ordered tree back from its sequence, and a sequence has one ordered
tree at most.
-/

namespace OperatorMarkup

namespace Grouping

variable {α ο : Type} {order : ο → ο → Except Error Decision}

open Grouping.Tree

/-! ## Reading a tree -/

/-- The grammar of trees that refuses no operator. -/
abbrev lenientTrees (order : ο → ο → Except Error Decision) :
    Grammar (Except Error) α ο (Tree α ο) :=
  Grammar.trees order (fun _ => .ok ()) (fun _ => .ok ())

/-- A state in which a tree has been read stands for that tree as an operand: at
the end of the sequence, and before an operator to the left of which it ends. -/
structure StandsFor (order : ο → ο → Except Error Decision) (stack : List (Frame ο (Tree α ο)))
    (tree : Tree α ο) (state : State ο (Tree α ο)) : Prop where
  finish_eq : (lenientTrees order).finish state = (lenientTrees order).closeAll stack tree
  step_eq : ∀ op, tree.EndsBefore order op →
    (lenientTrees order).step state (.operator op) =
      ((lenientTrees order).place op stack tree).map .operandDue

/-- A tree that can be read behind any open groups that it starts inside of. -/
def Readable (order : ο → ο → Except Error Decision) (tree : Tree α ο) : Prop :=
  ∀ stack : List (Frame ο (Tree α ο)),
    (∀ outer ∈ stack.head?, tree.StartsInside order outer.last) →
      ∃ state, (lenientTrees order).read (.operandDue stack) tree.elements = .ok state ∧
        StandsFor order stack tree state

theorem readable_leaf (operand : α) : Readable order (.leaf operand : Tree α ο) := by
  intro stack _
  exact ⟨.operatorDue stack (.leaf operand), rfl, rfl, fun op _ => Grammar.step_operator _⟩

/-- The first operator of a group is placed behind the operand before it. -/
theorem place_first {op : ο} {operators : List ο} {operand : Tree α ο}
    {operands : List (Tree α ο)} {stack : List (Frame ο (Tree α ο))}
    (starts : ∀ outer ∈ stack.head?,
      (group (op :: operators) (operand :: operands)).StartsInside order outer.last) :
    (lenientTrees order).place op stack operand = .ok (.begin op operand :: stack) := by
  cases stack with
  | nil => exact Grammar.place_nil _
  | cons outer stack =>
      have right : order outer.last op = .ok .right :=
        starts outer rfl (op :: operators) List.mem_cons_self op rfl
      exact Grammar.place_right _ right

/-- An operand is read, and the operator behind it is placed behind the whole of
it. -/
theorem read_operand {op : ο} {operators : List ο} {operand : Tree α ο}
    {operands : List (Tree α ο)} {stack placed : List (Frame ο (Tree α ο))}
    (readable : Readable order operand)
    (starts : ∀ outer ∈ stack.head?, operand.StartsInside order outer.last)
    (ends : operand.EndsBefore order op)
    (place_eq : (lenientTrees order).place op stack operand = .ok placed) :
    (lenientTrees order).read (.operandDue stack)
        (elementsOf (op :: operators) (operand :: operands)) =
      (lenientTrees order).read (.operandDue placed) (elementsOf operators operands) := by
  obtain ⟨middle, read_eq, _, step_eq⟩ := readable stack starts
  have next : (lenientTrees order).step middle (.operator op) = .ok (.operandDue placed) := by
    rw [step_eq op ends, place_eq]
    rfl
  rw [elementsOf_cons, Grammar.read_append, read_eq]
  change (lenientTrees order).read middle (.operator op :: elementsOf operators operands) = _
  rw [Grammar.read_cons, next]
  rfl

/-- A last operand behind an open group stands for the group. -/
theorem StandsFor.close {frame : Frame ο (Tree α ο)} {stack : List (Frame ο (Tree α ο))}
    {last : Tree α ο} {state : State ο (Tree α ο)}
    (stands : StandsFor order (frame :: stack) last state) :
    StandsFor order stack (.group frame.operators (frame.operands.reverse ++ [last])) state := by
  constructor
  · rw [stands.finish_eq, Grammar.closeAll_cons, trees_close]
    rfl
  · intro op endsBefore
    have decision : order frame.last op = .ok .left :=
      endsBefore frame.operators List.mem_cons_self frame.last (by simp [frame.operators_eq])
    have lastEnds : last.EndsBefore order op := by
      intro operators member
      apply endsBefore operators
      apply List.mem_cons_of_mem
      rw [rightSpineOf_append]
      exact member
    rw [stands.step_eq op lastEnds, Grammar.place_left _ decision, trees_close]
    rfl

/-- The open group and the operands still to be read form the group that is
read. -/
theorem read_rest (operators : List ο) (frame : Frame ο (Tree α ο))
    {operands : List (Tree α ο)} (stack : List (Frame ο (Tree α ο)))
    (arity : operands.length = operators.length + 1)
    (fused : ∀ pair ∈ (frame.last :: operators).zip operators,
      order pair.1 pair.2 = .ok .aggregate)
    (starts : ∀ pair ∈ (frame.last :: operators).zip operands, StartsInside order pair.1 pair.2)
    (ends : ∀ pair ∈ operands.zip operators, EndsBefore order pair.2 pair.1)
    (readable : ∀ operand ∈ operands, Readable order operand) :
    ∃ state,
      (lenientTrees order).read (.operandDue (frame :: stack)) (elementsOf operators operands) =
        .ok state ∧
      StandsFor order stack
        (.group (frame.operators ++ operators) (frame.operands.reverse ++ operands)) state := by
  induction operators generalizing frame operands with
  | nil =>
      obtain ⟨last, rfl⟩ := List.length_eq_one_iff.mp arity
      have lastStarts : last.StartsInside order frame.last := starts (frame.last, last) (by simp)
      obtain ⟨state, read_eq, stands⟩ :=
        readable last List.mem_cons_self (frame :: stack) (fun outer outerMem => by
          rw [← Option.some.inj outerMem]
          exact lastStarts)
      rw [elementsOf_singleton, List.append_nil]
      exact ⟨state, read_eq, stands.close⟩
  | cons op operators ih =>
      obtain ⟨operand, operands, rfl⟩ := List.exists_cons_of_length_eq_add_one arity
      simp only [List.zip_cons_cons, List.forall_mem_cons] at fused starts ends readable
      have read_eq := @read_operand α ο order op operators operand operands (frame :: stack) _
        readable.1 (fun outer outerMem => Option.some.inj outerMem ▸ starts.1) ends.1
        (Grammar.place_aggregate _ fused.1)
      obtain ⟨state, rest_eq, stands⟩ := ih (frame.extend op operand) (by simpa using arity)
        fused.2 starts.2 ends.2 readable.2
      refine ⟨state, read_eq.trans rest_eq, ?_⟩
      rw [Frame.operators_extend] at stands
      simpa [Frame.extend] using stands

/-- Reading an ordered tree amounts to having it as an operand. -/
theorem Tree.Ordered.readable {tree : Tree α ο} (ordered : tree.Ordered order) :
    Readable order tree := by
  induction ordered with
  | leaf operand => exact readable_leaf operand
  | @group operators operands nonempty arity fused starts ends _ ih =>
      intro stack stackStarts
      obtain ⟨op, operators, rfl⟩ := List.exists_cons_of_ne_nil nonempty
      obtain ⟨operand, operands, rfl⟩ := List.exists_cons_of_length_eq_add_one arity
      simp only [List.zip_cons_cons, List.tail_cons, List.forall_mem_cons] at fused starts ends ih
      have read_eq := @read_operand α ο order op operators operand operands stack _ ih.1
        (fun outer outerMem operators member =>
          stackStarts outer outerMem operators (List.mem_cons_of_mem _ member)) ends.1
        (place_first stackStarts)
      obtain ⟨state, rest_eq, stands⟩ := read_rest operators (.begin op operand) stack
        (by simpa using arity) fused starts ends.2 ih.2
      rw [elements_group]
      exact ⟨state, read_eq.trans rest_eq, stands⟩

/-- Grouping gives an ordered tree back from its sequence. -/
theorem Tree.Ordered.group_elements {tree : Tree α ο} (ordered : tree.Ordered order) :
    (lenientTrees order).group (tree.elements.map .ok) = .ok tree := by
  obtain ⟨state, read_eq, finish_eq, _⟩ := ordered.readable [] (by simp)
  rw [Grammar.group_map_ok, read_eq]
  exact finish_eq

/-- A sequence has one ordered tree at most. -/
theorem Tree.Ordered.eq_of_elements_eq {first second : Tree α ο}
    (firstOrdered : first.Ordered order) (secondOrdered : second.Ordered order)
    (elements_eq : first.elements = second.elements) : first = second := by
  have firstGroup := firstOrdered.group_elements
  rw [elements_eq, secondOrdered.group_elements] at firstGroup
  exact (Except.ok.inj firstGroup).symm

/-! ## Sequences that alternate -/

variable (answer : ο → ο → Decision)

theorem totalTrees_place (op : ο) (stack : List (Frame ο (Tree α ο))) (current : Tree α ο) :
    ∃ placed, (Grammar.totalTrees answer).place op stack current = .ok placed := by
  induction stack generalizing current with
  | nil => exact ⟨_, Grammar.place_nil _⟩
  | cons frame stack ih =>
      cases decision : answer frame.last op with
      | left =>
          rw [Grammar.place_left _ (congrArg Except.ok decision), Grammar.totalTrees, trees_close]
          exact ih (frame.toTree current)
      | right => exact ⟨_, Grammar.place_right _ (congrArg Except.ok decision)⟩
      | aggregate => exact ⟨_, Grammar.place_aggregate _ (congrArg Except.ok decision)⟩

theorem totalTrees_closeAll (stack : List (Frame ο (Tree α ο))) (current : Tree α ο) :
    ∃ tree, (Grammar.totalTrees answer).closeAll stack current = .ok tree := by
  induction stack generalizing current with
  | nil => exact ⟨current, rfl⟩
  | cons frame stack ih =>
      rw [Grammar.closeAll_cons, Grammar.totalTrees, trees_close]
      exact ih (frame.toTree current)

theorem totalTrees_read_pair (value : α) (op : ο) (rest : List (Element α ο))
    (stack : List (Frame ο (Tree α ο))) :
    ∃ placed, (Grammar.totalTrees answer).read (.operandDue stack)
        (.operand value :: .operator op :: rest) =
      (Grammar.totalTrees answer).read (.operandDue placed) rest := by
  obtain ⟨placed, place_eq⟩ := totalTrees_place answer op stack (.leaf value)
  refine ⟨placed, ?_⟩
  rw [Grammar.read_cons]
  change (Grammar.totalTrees answer).read (.operatorDue stack (.leaf value)) _ = _
  rw [Grammar.read_cons, Grammar.step_operator, place_eq]
  rfl

/-- A sequence that alternates is read up to a last operand. -/
theorem totalTrees_read_of_alternates : ∀ (elements : List (Element α ο))
    (stack : List (Frame ο (Tree α ο))), Alternates elements →
      ∃ rest current, (Grammar.totalTrees answer).read (.operandDue stack) elements =
        .ok (.operatorDue rest current)
  | [.operand value], stack, _ => ⟨stack, .leaf value, rfl⟩
  | .operand value :: .operator op :: rest, stack, alternates => by
      obtain ⟨placed, read_eq⟩ := totalTrees_read_pair answer value op rest stack
      rw [read_eq]
      exact totalTrees_read_of_alternates rest placed alternates

/-- A sequence that does not alternate is refused where it stops doing so, or
ends where an operand is due. -/
theorem totalTrees_read_of_not_alternates : ∀ (elements : List (Element α ο))
    (stack : List (Frame ο (Tree α ο))), ¬ Alternates elements →
      (∃ defect, (Grammar.totalTrees answer).read (.operandDue stack) elements =
        .error (.internal defect none)) ∨
      ∃ rest, (Grammar.totalTrees answer).read (.operandDue stack) elements =
        .ok (.operandDue rest)
  | [], stack, _ => .inr ⟨stack, rfl⟩
  | .operator _ :: _, _, _ => .inl ⟨.twoOperators, rfl⟩
  | [.operand _], _, broken => absurd trivial broken
  | .operand _ :: .operand _ :: _, _, _ => .inl ⟨.twoOperands, rfl⟩
  | .operand value :: .operator op :: rest, stack, broken => by
      obtain ⟨placed, read_eq⟩ := totalTrees_read_pair answer value op rest stack
      rw [read_eq]
      exact totalTrees_read_of_not_alternates rest placed broken

/-- Grouping by an order that always answers refuses the sequences that do not
alternate, and gives every other its one ordered tree. -/
theorem totalTrees_group_unique (elements : List (Element α ο)) :
    (¬ Alternates elements →
      ∃ defect, (Grammar.totalTrees answer).group (elements.map .ok) =
        .error (.internal defect none)) ∧
    (Alternates elements →
      ∃ tree, (Grammar.totalTrees answer).group (elements.map .ok) = .ok tree ∧
        tree.elements = elements ∧
        tree.Ordered (fun left right => .ok (answer left right)) ∧
        ∀ other : Tree α ο, other.elements = elements →
          other.Ordered (fun left right => .ok (answer left right)) → other = tree) := by
  rw [Grammar.group_map_ok]
  constructor
  · intro broken
    rcases totalTrees_read_of_not_alternates answer elements [] broken with
      ⟨defect, read_eq⟩ | ⟨rest, read_eq⟩
    · exact ⟨defect, by rw [read_eq]; rfl⟩
    · exact ⟨.operandMissing, by rw [read_eq]; rfl⟩
  · intro alternates
    obtain ⟨rest, current, read_eq⟩ :=
      totalTrees_read_of_alternates answer elements [] alternates
    obtain ⟨tree, close_eq⟩ := totalTrees_closeAll answer rest current
    have group_eq : (Grammar.totalTrees answer).group (elements.map .ok) = .ok tree := by
      rw [Grammar.group_map_ok, read_eq]
      exact close_eq
    obtain ⟨ordered, elements_eq⟩ := ordered_of_group_eq_ok group_eq
    refine ⟨tree, by rw [← Grammar.group_map_ok, group_eq], elements_eq, ordered, ?_⟩
    intro other otherElements otherOrdered
    exact otherOrdered.eq_of_elements_eq ordered (otherElements.trans elements_eq.symm)

/-- Operators of one name aggregate, and an asterisk binds tighter than others. -/
def starBindsTighter (left right : Char) : Decision :=
  if left = right then .aggregate else if left = '*' then .left else .right

/-- Two operands in a row are refused, and a sequence that alternates has one
tree. -/
theorem totalTrees_group_unique_star :
    (∃ defect, (@Grammar.totalTrees Char Char starBindsTighter).group
        ([.operand 'a', .operand 'b'].map .ok) = .error (.internal defect none)) ∧
    ∃ tree, (Grammar.totalTrees starBindsTighter).group
        ([.operand 'a', .operator '+', .operand 'b', .operator '*', .operand 'c'].map .ok) =
          .ok tree ∧
      tree.elements = [.operand 'a', .operator '+', .operand 'b', .operator '*', .operand 'c'] ∧
      tree.Ordered (fun left right => .ok (starBindsTighter left right)) ∧
      ∀ other : Tree Char Char,
        other.elements = [.operand 'a', .operator '+', .operand 'b', .operator '*', .operand 'c'] →
          other.Ordered (fun left right => .ok (starBindsTighter left right)) → other = tree :=
  ⟨(totalTrees_group_unique starBindsTighter [.operand 'a', .operand 'b']).1 (fun holds => holds),
    (totalTrees_group_unique starBindsTighter
      [.operand 'a', .operator '+', .operand 'b', .operator '*', .operand 'c']).2 trivial⟩

end Grouping

end OperatorMarkup
