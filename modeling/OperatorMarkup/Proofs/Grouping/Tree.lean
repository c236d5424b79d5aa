import OperatorMarkup.Grouping

/-!
# Trees of a sequence and their order

A free tree records how grouping bracketed a sequence: which operators make up a
group and which operands lie between them.  It is ordered when every answer that
the order of operators gives is respected: operators of one group aggregate, a
group that an operand starts with starts to the right of the operator before it,
and a group that an operand ends with ends to the left of the operator behind
it.
-/

namespace OperatorMarkup

namespace Grouping

/-- A tree over operands and operators, made by grouping alone. -/
inductive Tree (α ο : Type) where
  /-- An operand. -/
  | leaf (operand : α)
  /-- A group, given its operators and its operands in order. -/
  | group (operators : List ο) (operands : List (Tree α ο))

namespace Tree

variable {α ο : Type}

mutual

/-- The sequence that a tree was made of. -/
def elements : Tree α ο → List (Element α ο)
  | leaf operand => [.operand operand]
  | group operators operands => elementsOf operators operands

/-- The sequence that operators and the operands around them were made of. -/
def elementsOf : List ο → List (Tree α ο) → List (Element α ο)
  | operators, [] => operators.map .operator
  | [], operand :: operands => operand.elements ++ elementsOf [] operands
  | op :: operators, operand :: operands =>
      operand.elements ++ .operator op :: elementsOf operators operands

end

mutual

/-- The groups on the left spine of a tree, outermost first: itself, its first
operand, and so on.  Each is given by its operators. -/
def leftSpine : Tree α ο → List (List ο)
  | leaf _ => []
  | group operators operands => operators :: leftSpineOf operands

/-- The groups on the left spine of the first of some operands. -/
def leftSpineOf : List (Tree α ο) → List (List ο)
  | [] => []
  | operand :: _ => operand.leftSpine

end

mutual

/-- The groups on the right spine of a tree, outermost first: itself, its last
operand, and so on.  Each is given by its operators. -/
def rightSpine : Tree α ο → List (List ο)
  | leaf _ => []
  | group operators operands => operators :: rightSpineOf operands

/-- The groups on the right spine of the last of some operands. -/
def rightSpineOf : List (Tree α ο) → List (List ο)
  | [] => []
  | [operand] => operand.rightSpine
  | _ :: operand :: operands => rightSpineOf (operand :: operands)

end

/-- Every group of a left spine starts to the right of an operator. -/
def SpineStartsInside (order : ο → ο → Except Error Decision) (op : ο)
    (spine : List (List ο)) : Prop :=
  ∀ operators ∈ spine, ∀ first ∈ operators.head?, order op first = .ok .right

/-- Every group that a tree starts with starts to the right of the operator
before the tree. -/
def StartsInside (order : ο → ο → Except Error Decision) (op : ο) (tree : Tree α ο) : Prop :=
  SpineStartsInside order op tree.leftSpine

/-- Every group that a tree ends with ends to the left of the operator behind
the tree. -/
def EndsBefore (order : ο → ο → Except Error Decision) (op : ο) (tree : Tree α ο) : Prop :=
  ∀ operators ∈ tree.rightSpine, ∀ last ∈ operators.getLast?, order last op = .ok .left

/-- Every group of a tree has one more operand than operators, and agrees with
the order of operators inside it and on either side of each operand. -/
inductive Ordered (order : ο → ο → Except Error Decision) : Tree α ο → Prop
  | leaf (operand : α) : Ordered order (leaf operand)
  | group {operators : List ο} {operands : List (Tree α ο)}
      (nonempty : operators ≠ [])
      (arity : operands.length = operators.length + 1)
      (fused : ∀ pair ∈ operators.zip operators.tail, order pair.1 pair.2 = .ok .aggregate)
      (starts : ∀ pair ∈ operators.zip operands.tail, StartsInside order pair.1 pair.2)
      (ends : ∀ pair ∈ operands.zip operators, EndsBefore order pair.2 pair.1)
      (within : ∀ operand ∈ operands, Ordered order operand) :
      Ordered order (group operators operands)

/-- A group of one operator has another inside one of its operands. -/
inductive Under (outer inner : ο) : Tree α ο → Prop
  | here {operators : List ο} {operands : List (Tree α ο)} {operand : Tree α ο}
      (outerMem : outer ∈ operators) (operandMem : operand ∈ operands)
      (innerMem : .operator inner ∈ operand.elements) : Under outer inner (group operators operands)
  | within {operators : List ο} {operands : List (Tree α ο)} {operand : Tree α ο}
      (operandMem : operand ∈ operands) (under : Under outer inner operand) :
      Under outer inner (group operators operands)

/-! ## Sequences and spines of groups -/

@[simp]
theorem elements_leaf (operand : α) :
    (leaf operand : Tree α ο).elements = [.operand operand] :=
  rfl

@[simp]
theorem elements_group (operators : List ο) (operands : List (Tree α ο)) :
    (group operators operands).elements = elementsOf operators operands :=
  rfl

theorem elementsOf_cons (op : ο) (operators : List ο) (operand : Tree α ο)
    (operands : List (Tree α ο)) :
    elementsOf (op :: operators) (operand :: operands) =
      operand.elements ++ .operator op :: elementsOf operators operands :=
  rfl

@[simp]
theorem elementsOf_singleton (operand : Tree α ο) :
    elementsOf [] [operand] = operand.elements := by
  simp [elementsOf]

/-- A last operand adds its own sequence. -/
theorem elementsOf_append_operand {operators : List ο} {operands : List (Tree α ο)}
    (length_eq : operands.length = operators.length) (last : Tree α ο) :
    elementsOf operators (operands ++ [last]) =
      elementsOf operators operands ++ last.elements := by
  induction operators generalizing operands with
  | nil =>
      have empty : operands = [] := List.eq_nil_of_length_eq_zero length_eq
      simp [empty, elementsOf]
  | cons op operators ih =>
      cases operands with
      | nil => simp at length_eq
      | cons operand operands =>
          have rest := @ih operands (by simpa using length_eq)
          rw [List.cons_append, elementsOf_cons, elementsOf_cons, rest]
          simp

/-- A last operand with an operator behind it adds both. -/
theorem elementsOf_append_operator {operators : List ο} {operands : List (Tree α ο)}
    (length_eq : operands.length = operators.length) (op : ο) (last : Tree α ο) :
    elementsOf (operators ++ [op]) (operands ++ [last]) =
      elementsOf operators operands ++ last.elements ++ [.operator op] := by
  induction operators generalizing operands with
  | nil =>
      have empty : operands = [] := List.eq_nil_of_length_eq_zero length_eq
      simp [empty, elementsOf]
  | cons first operators ih =>
      cases operands with
      | nil => simp at length_eq
      | cons operand operands =>
          have rest := @ih operands (by simpa using length_eq)
          rw [List.cons_append, List.cons_append, elementsOf_cons, elementsOf_cons, rest]
          simp

theorem mem_elementsOf_operator {op : ο} {operators : List ο} {operands : List (Tree α ο)}
    (member : op ∈ operators) : .operator op ∈ elementsOf operators operands := by
  induction operators generalizing operands with
  | nil => contradiction
  | cons first operators ih =>
      cases operands with
      | nil => exact List.mem_map_of_mem member
      | cons operand operands =>
          rw [elementsOf_cons]
          apply List.mem_append_right
          rcases List.mem_cons.mp member with rfl | later
          · exact List.mem_cons_self
          · exact List.mem_cons_of_mem _ (ih later)

theorem mem_elementsOf_operand {operators : List ο} {operands : List (Tree α ο)}
    {operand : Tree α ο} (member : operand ∈ operands) {element : Element α ο}
    (within : element ∈ operand.elements) : element ∈ elementsOf operators operands := by
  induction operands generalizing operators with
  | nil => contradiction
  | cons first operands ih =>
      cases operators with
      | nil =>
          rw [elementsOf]
          rcases List.mem_cons.mp member with rfl | later
          · exact List.mem_append_left _ within
          · exact List.mem_append_right _ (ih later)
      | cons op operators =>
          rw [elementsOf_cons]
          rcases List.mem_cons.mp member with rfl | later
          · exact List.mem_append_left _ within
          · exact List.mem_append_right _ (List.mem_cons_of_mem _ (ih later))

/-- Only the first operand lies on the left spine. -/
theorem leftSpineOf_append {operands : List (Tree α ο)} (nonempty : operands ≠ [])
    (more : List (Tree α ο)) : leftSpineOf (operands ++ more) = leftSpineOf operands := by
  cases operands with
  | nil => exact absurd rfl nonempty
  | cons operand operands => rfl

/-- Only the last operand lies on the right spine. -/
@[simp]
theorem rightSpineOf_append (operands : List (Tree α ο)) (last : Tree α ο) :
    rightSpineOf (operands ++ [last]) = last.rightSpine := by
  induction operands with
  | nil => rfl
  | cons operand operands ih =>
      cases operands with
      | nil => rfl
      | cons second operands => exact ih

/-- Both operators are operators of the tree. -/
theorem Under.mem_elements {outer inner : ο} {tree : Tree α ο} (under : tree.Under outer inner) :
    .operator outer ∈ tree.elements ∧ .operator inner ∈ tree.elements := by
  induction under with
  | here outerMem operandMem innerMem =>
      exact ⟨mem_elementsOf_operator outerMem, mem_elementsOf_operand operandMem innerMem⟩
  | within operandMem _ ih =>
      exact ⟨mem_elementsOf_operand operandMem ih.1, mem_elementsOf_operand operandMem ih.2⟩

/-! ## Operators on the spines -/

theorem exists_mem_of_mem_leftSpineOf {operands : List (Tree α ο)} {operators : List ο}
    (member : operators ∈ leftSpineOf operands) :
    ∃ operand ∈ operands, operators ∈ operand.leftSpine := by
  cases operands with
  | nil => simp [leftSpineOf] at member
  | cons operand operands => exact ⟨operand, List.mem_cons_self, member⟩

theorem exists_mem_of_mem_rightSpineOf {operands : List (Tree α ο)} {operators : List ο}
    (member : operators ∈ rightSpineOf operands) :
    ∃ operand ∈ operands, operators ∈ operand.rightSpine := by
  rcases List.eq_nil_or_concat operands with rfl | ⟨front, last, rfl⟩
  · simp [rightSpineOf] at member
  · rw [List.concat_eq_append, rightSpineOf_append] at member
    exact ⟨last, by simp, member⟩

/-- The operators of a left spine are operators of the tree. -/
theorem mem_elements_of_mem_leftSpine : ∀ (tree : Tree α ο) {operators : List ο} {op : ο},
    operators ∈ tree.leftSpine → op ∈ operators → .operator op ∈ tree.elements
  | .leaf _, _, _, member, _ => by simp [leftSpine] at member
  | .group outer operands, operators, op, member, inside => by
      rcases List.mem_cons.mp member with rfl | inner
      · exact mem_elementsOf_operator inside
      · obtain ⟨operand, operandMem, spineMem⟩ := exists_mem_of_mem_leftSpineOf inner
        have smaller := List.sizeOf_lt_of_mem operandMem
        exact mem_elementsOf_operand operandMem
          (mem_elements_of_mem_leftSpine operand spineMem inside)

/-- The operators of a right spine are operators of the tree. -/
theorem mem_elements_of_mem_rightSpine : ∀ (tree : Tree α ο) {operators : List ο} {op : ο},
    operators ∈ tree.rightSpine → op ∈ operators → .operator op ∈ tree.elements
  | .leaf _, _, _, member, _ => by simp [rightSpine] at member
  | .group outer operands, operators, op, member, inside => by
      rcases List.mem_cons.mp member with rfl | inner
      · exact mem_elementsOf_operator inside
      · obtain ⟨operand, operandMem, spineMem⟩ := exists_mem_of_mem_rightSpineOf inner
        have smaller := List.sizeOf_lt_of_mem operandMem
        exact mem_elementsOf_operand operandMem
          (mem_elements_of_mem_rightSpine operand spineMem inside)

/-! ## Trees without groups at their ends -/

@[simp]
theorem startsInside_leaf (order : ο → ο → Except Error Decision) (op : ο) (operand : α) :
    StartsInside order op (leaf operand : Tree α ο) := by
  intro operators member
  simp [leftSpine] at member

@[simp]
theorem endsBefore_leaf (order : ο → ο → Except Error Decision) (op : ο) (operand : α) :
    EndsBefore order op (leaf operand : Tree α ο) := by
  intro operators member
  simp [rightSpine] at member

end Tree

/-- Operands and operators in turn, an operand first and last. -/
def Alternates {α ο : Type} : List (Element α ο) → Prop
  | [.operand _] => True
  | .operand _ :: .operator _ :: rest => Alternates rest
  | _ => False

end Grouping

namespace Grammar

open Grouping

variable {α ο ν : Type}

/-- The grammar that keeps how a sequence was grouped and nothing else. -/
def trees (order : ο → ο → Except Error Decision) (mayStart mayEnd : ο → Except Error Unit) :
    Grammar (Except Error) α ο (Tree α ο) where
  order := order
  leaf operand := .ok (.leaf operand)
  node operators operands := .ok (.group operators operands)
  mayStart := mayStart
  mayEnd := mayEnd

/-- The same where every question has an answer and nothing is refused. -/
def totalTrees (order : ο → ο → Decision) : Grammar (Except Error) α ο (Tree α ο) :=
  trees (fun left right => .ok (order left right)) (fun _ => .ok ()) (fun _ => .ok ())

/-- Read some elements one after the other. -/
def read (grammar : Grammar (Except Error) α ο ν) (state : State ο ν)
    (elements : List (Element α ο)) : Except Error (State ο ν) :=
  elements.foldlM grammar.step state

/-! ## Equations for grammars that may fail -/

section Equations

variable (grammar : Grammar (Except Error) α ο ν) {op : ο} {frame : Frame ο ν}
  {stack : List (Frame ο ν)} {current : ν}

theorem place_nil :
    grammar.place op [] current = (grammar.mayStart op).map fun _ => [.begin op current] := by
  rw [place]
  cases grammar.mayStart op <;> rfl

theorem place_left (decision : grammar.order frame.last op = .ok .left) :
    grammar.place op (frame :: stack) current =
      (grammar.close frame current).bind (grammar.place op stack) := by
  rw [place, decision]
  rfl

theorem place_right (decision : grammar.order frame.last op = .ok .right) :
    grammar.place op (frame :: stack) current =
      (grammar.mayStart op).map fun _ => .begin op current :: frame :: stack := by
  rw [place, decision]
  change (grammar.mayStart op).bind _ = _
  cases grammar.mayStart op <;> rfl

theorem place_aggregate (decision : grammar.order frame.last op = .ok .aggregate) :
    grammar.place op (frame :: stack) current = .ok (frame.extend op current :: stack) := by
  rw [place, decision]
  rfl

theorem place_error {error : Error} (failed : grammar.order frame.last op = .error error) :
    grammar.place op (frame :: stack) current = .error error := by
  rw [place, failed]
  rfl

theorem closeAll_cons :
    grammar.closeAll (frame :: stack) current =
      (grammar.mayEnd frame.last).bind fun _ =>
        (grammar.close frame current).bind (grammar.closeAll stack) :=
  rfl

theorem step_operand (value : α) :
    grammar.step (.operandDue stack) (.operand value) =
      (grammar.leaf value).map (.operatorDue stack) := by
  rw [step]
  cases grammar.leaf value <;> rfl

theorem step_operator :
    grammar.step (.operatorDue stack current) (.operator op) =
      (grammar.place op stack current).map .operandDue := by
  rw [step]
  cases grammar.place op stack current <;> rfl

theorem read_cons (state : State ο ν) (element : Element α ο) (elements : List (Element α ο)) :
    grammar.read state (element :: elements) =
      (grammar.step state element).bind fun next => grammar.read next elements :=
  rfl

theorem read_append (state : State ο ν) (first second : List (Element α ο)) :
    grammar.read state (first ++ second) =
      (grammar.read state first).bind fun next => grammar.read next second := by
  simp [read, bind]

/-- A sequence without failures is read to its end. -/
theorem group_map_ok (elements : List (Element α ο)) :
    grammar.group (elements.map .ok) =
      (grammar.read (.operandDue []) elements).bind grammar.finish := by
  rw [group, List.foldlM_map]
  rfl

/-- A sequence is read up to its first failure. -/
theorem group_append_error (elements : List (Element α ο)) (error : Error)
    (rest : List (Except Error (Element α ο))) :
    grammar.group (elements.map .ok ++ .error error :: rest) =
      (grammar.read (.operandDue []) elements).bind fun _ => .error error := by
  rw [group, List.foldlM_append, List.foldlM_map]
  change (Except.bind (Except.bind (grammar.read _ elements) _) _) = _
  cases grammar.read (.operandDue []) elements <;> rfl

end Equations

end Grammar

end OperatorMarkup
