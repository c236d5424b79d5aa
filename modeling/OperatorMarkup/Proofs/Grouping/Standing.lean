import OperatorMarkup.Proofs.Grouping.Tree

/-!
# Groups at their places in a sequence

A part of an ordered tree stands between what comes before it and what comes behind it in
the sequence.  The operator right before it starts it inside, and the operator right behind
it ends after it.  So whether the first operand of a group is the operand right before its
first operator, or a group that ends there, is a matter of the operator before that operand
alone; and likewise for the last one.
-/

namespace OperatorMarkup

namespace Grouping

namespace Tree

variable {α ο : Type} {order : ο → ο → Except Error Decision}
  {holds known : List ο → List (Tree α ο) → Prop}

/-- Every group of a tree is as required, given its operators and its operands. -/
inductive Every (holds : List ο → List (Tree α ο) → Prop) : Tree α ο → Prop
  | leaf (operand : α) : Every holds (leaf operand)
  | group {operators : List ο} {operands : List (Tree α ο)} (here : holds operators operands)
      (within : ∀ operand ∈ operands, Every holds operand) : Every holds (group operators operands)

theorem every_group_iff {operators : List ο} {operands : List (Tree α ο)} :
    Every holds (group operators operands) ↔
      holds operators operands ∧ ∀ operand ∈ operands, Every holds operand := by
  constructor
  · rintro (_ | ⟨here, within⟩)
    exact ⟨here, within⟩
  · exact fun every => .group every.1 every.2

/-- What is required of every group is so of the groups inside of each. -/
theorem Every.hereditary {tree : Tree α ο} (every : tree.Every holds) :
    tree.Every fun operators operands =>
      holds operators operands ∧ ∀ operand ∈ operands, operand.Every holds := by
  induction every with
  | leaf operand => exact .leaf operand
  | group here within ih => exact .group ⟨here, within⟩ ih

namespace Ordered

variable {operators : List ο} {operands : List (Tree α ο)}

theorem nonempty (ordered : (Tree.group operators operands).Ordered order) : operators ≠ [] := by
  obtain _ | ⟨nonempty⟩ := ordered
  exact nonempty

theorem arity (ordered : (Tree.group operators operands).Ordered order) :
    operands.length = operators.length + 1 := by
  obtain _ | ⟨_, arity⟩ := ordered
  exact arity

theorem fused (ordered : (Tree.group operators operands).Ordered order) :
    ∀ pair ∈ operators.zip operators.tail, order pair.1 pair.2 = .ok .aggregate := by
  obtain _ | ⟨_, _, fused⟩ := ordered
  exact fused

/-- Every group of an ordered tree is ordered. -/
theorem every {tree : Tree α ο} (ordered : tree.Ordered order) :
    tree.Every fun operators operands => (Tree.group operators operands).Ordered order := by
  induction ordered with
  | leaf operand => exact .leaf operand
  | group nonempty arity fused starts ends within ih =>
      exact .group (.group nonempty arity fused starts ends within) ih

/-- Two operators in a row within a group join. -/
theorem fused_between {first second : List ο} {left right : ο}
    (ordered : (Tree.group (first ++ [left] ++ right :: second) operands).Ordered order) :
    order left right = .ok .aggregate := by
  apply ordered.fused (left, right)
  rw [List.append_assoc, List.singleton_append]
  cases first with
  | nil => simp
  | cons op first =>
      rw [List.cons_append, List.tail_cons, ← List.cons_append, List.append_cons first left,
        List.zip_append (by simp)]
      simp

end Ordered

/-! ## Sequences that are cut at an operand -/

/-- Operators, each with the operand behind it. -/
def linksOf (operators : List ο) (operands : List (Tree α ο)) : List (Element α ο) :=
  (operators.zip operands).flatMap fun link => .operator link.1 :: link.2.elements

theorem elementsOf_append {first : List ο} {front : List (Tree α ο)}
    (length_eq : front.length = first.length) (second : List ο) (back : List (Tree α ο)) :
    elementsOf (first ++ second) (front ++ back) =
      elementsOf first front ++ elementsOf second back := by
  induction first generalizing front with
  | nil =>
      obtain rfl := List.eq_nil_of_length_eq_zero length_eq
      rfl
  | cons op first ih =>
      obtain ⟨operand, front, rfl⟩ := List.exists_cons_of_length_eq_add_one length_eq
      simp only [List.cons_append, elementsOf_cons, ih (Nat.succ.inj length_eq), List.append_assoc]

theorem elementsOf_eq_links {operators : List ο} {operands : List (Tree α ο)} (operand : Tree α ο)
    (length_eq : operands.length = operators.length) :
    elementsOf operators (operand :: operands) =
      operand.elements ++ linksOf operators operands := by
  induction operators generalizing operand operands with
  | nil =>
      obtain rfl := List.eq_nil_of_length_eq_zero length_eq
      simp [linksOf]
  | cons op operators ih =>
      obtain ⟨next, operands, rfl⟩ := List.exists_cons_of_length_eq_add_one length_eq
      rw [elementsOf_cons, ih next (Nat.succ.inj length_eq)]
      rfl

section Around

variable {first second operators : List ο} {front back operands : List (Tree α ο)}
  {operand : Tree α ο}

theorem elementsOf_around (front_length : front.length = first.length)
    (back_length : back.length = second.length) :
    elementsOf (first ++ second) (front ++ operand :: back) =
      elementsOf first front ++ (operand.elements ++ linksOf second back) := by
  rw [elementsOf_append front_length, elementsOf_eq_links operand back_length]

/-- The operators of a group lie before or behind each of its operands. -/
theorem exists_around (arity : operands.length = operators.length + 1)
    (member : operand ∈ operands) :
    ∃ first second front back, operators = first ++ second ∧
      operands = front ++ operand :: back ∧ front.length = first.length ∧
      back.length = second.length := by
  obtain ⟨front, back, rfl⟩ := List.append_of_mem member
  rw [List.length_append, List.length_cons] at arity
  refine ⟨operators.take front.length, operators.drop front.length, front, back,
    (List.take_append_drop _ _).symm, rfl, ?_, ?_⟩
  · rw [List.length_take]
    omega
  · rw [List.length_drop]
    omega

/-- An operator of a group has an operand right behind it. -/
theorem exists_behind {link : ο × Tree α ο} (arity : operands.length = operators.length + 1)
    (member : link ∈ operators.zip operands.tail) :
    ∃ first second front back, operators = first ++ [link.1] ++ second ∧
      operands = front ++ link.2 :: back ∧ front.length = (first ++ [link.1]).length ∧
      back.length = second.length := by
  obtain ⟨operand, operands, rfl⟩ := List.exists_cons_of_length_eq_add_one arity
  rw [List.tail_cons] at member
  obtain ⟨front, back, zip_eq⟩ := List.append_of_mem member
  have length_eq : operators.length = operands.length := by simpa using arity.symm
  have operators_eq := List.map_fst_zip (Nat.le_of_eq length_eq)
  have operands_eq := List.map_snd_zip (Nat.le_of_eq length_eq.symm)
  rw [zip_eq] at operators_eq operands_eq
  refine ⟨front.map Prod.fst, back.map Prod.fst, operand :: front.map Prod.snd,
    back.map Prod.snd, ?_, ?_, by simp, by simp⟩
  · rw [← operators_eq]
    simp
  · rw [← operands_eq]
    simp

end Around

/-- The first element of what lies behind an operand is the operator there. -/
theorem head?_linksOf {op : ο} {operators : List ο} {operands : List (Tree α ο)}
    (length_eq : operands.length = (op :: operators).length) (behind : List (Element α ο)) :
    (linksOf (op :: operators) operands ++ behind).head? = some (.operator op) := by
  obtain ⟨operand, operands, rfl⟩ := List.exists_cons_of_length_eq_add_one length_eq
  rfl

/-- The last element of what lies before an operand is the operator there. -/
theorem getLast?_elementsOf {op : ο} {operators : List ο} {operands : List (Tree α ο)}
    (length_eq : operands.length = (operators ++ [op]).length) (before : List (Element α ο)) :
    (before ++ elementsOf (operators ++ [op]) operands).getLast? = some (.operator op) := by
  obtain ⟨front, operand, rfl⟩ : ∃ front operand, operands = front ++ [operand] :=
    ⟨_, _, (List.dropLast_concat_getLast (by rintro rfl; simp at length_eq)).symm⟩
  have front_length : front.length = operators.length := by simpa using length_eq
  rw [elementsOf_append front_length, elementsOf_cons]
  simp [elementsOf]

/-! ## Places -/

/-- An ordered tree stands between what comes before it and what comes behind it. -/
structure Stands (order : ο → ο → Except Error Decision) (before : List (Element α ο))
    (tree : Tree α ο) (behind : List (Element α ο)) : Prop where
  ordered : tree.Ordered order
  starts : ∀ op, before.getLast? = some (.operator op) → tree.StartsInside order op
  ends : ∀ op, behind.head? = some (.operator op) → tree.EndsBefore order op

namespace Stands

variable {before behind : List (Element α ο)} {tree operand : Tree α ο}
  {operators first second : List ο} {operands front back : List (Tree α ο)}

/-- A whole tree stands alone. -/
theorem whole (ordered : tree.Ordered order) : Stands order [] tree [] :=
  ⟨ordered, nofun, nofun⟩

/-- An operand of a group stands between what the group has before it and behind it. -/
theorem of_operand
    (stands : Stands order before (group (first ++ second) (front ++ operand :: back)) behind)
    (front_length : front.length = first.length) (back_length : back.length = second.length) :
    Stands order (before ++ elementsOf first front) operand (linksOf second back ++ behind) := by
  obtain _ | ⟨_, _, _, starts, ends, within⟩ := stands.ordered
  constructor
  · exact within operand (by simp)
  · intro op last_eq
    rcases List.eq_nil_or_concat first with rfl | ⟨first, last, rfl⟩
    · obtain rfl := List.eq_nil_of_length_eq_zero front_length
      have outer := stands.starts op (by simpa [elementsOf] using last_eq)
      exact fun spine member => outer spine (List.mem_cons_of_mem _ member)
    · rw [List.concat_eq_append] at *
      rw [getLast?_elementsOf front_length] at last_eq
      obtain rfl := Element.operator.inj (Option.some.inj last_eq)
      obtain ⟨operand', front, rfl⟩ : ∃ operand' rest, front = operand' :: rest :=
        List.exists_cons_of_length_pos (by simp [front_length])
      have shorter : front.length = first.length := by simpa using front_length
      apply starts (last, operand)
      rw [List.cons_append, List.tail_cons, List.append_assoc, List.zip_append shorter.symm]
      simp
  · intro op head_eq
    cases second with
    | nil =>
        obtain rfl := List.eq_nil_of_length_eq_zero back_length
        have outer := stands.ends op (by simpa [linksOf] using head_eq)
        intro spine member
        apply outer spine
        rw [rightSpine, rightSpineOf_append]
        exact List.mem_cons_of_mem _ member
    | cons next second =>
        rw [head?_linksOf back_length] at head_eq
        obtain rfl := Element.operator.inj (Option.some.inj head_eq)
        apply ends (operand, next)
        rw [List.zip_append front_length]
        simp

/-- What follows for a group from its place in a sequence, and from what is known of all
groups, holds of all groups of a tree. -/
theorem every {sequence : List (Element α ο)}
    (here : ∀ before operators operands behind, known operators operands →
      Stands order before (group operators operands) behind →
      sequence = before ++ elementsOf operators operands ++ behind → holds operators operands)
    (allKnown : tree.Every known) (stands : Stands order before tree behind)
    (sequence_eq : sequence = before ++ tree.elements ++ behind) : tree.Every holds := by
  have ordered := stands.ordered
  induction ordered generalizing before behind with
  | leaf operand => exact .leaf operand
  | @group operators operands nonempty arity fused starts ends within ih =>
      rw [every_group_iff] at allKnown
      refine .group (here before operators operands behind allKnown.1 stands sequence_eq)
        fun operand member => ?_
      obtain ⟨first, second, front, back, rfl, rfl, front_length, back_length⟩ :=
        exists_around arity member
      apply ih operand member (allKnown.2 operand member)
        (stands.of_operand front_length back_length)
      rw [sequence_eq, elements_group, elementsOf_around front_length back_length]
      simp only [List.append_assoc]

end Stands

/-- An operand of a group behind its first one follows an operator. -/
theorem exists_link {operators : List ο} {operands : List (Tree α ο)} {operand : Tree α ο}
    (arity : operands.length = operators.length + 1) (member : operand ∈ operands.tail) :
    ∃ op ∈ operators, (op, operand) ∈ operators.zip operands.tail := by
  have length_eq : operands.tail.length = operators.length := by
    rw [List.length_tail, arity, Nat.add_sub_cancel]
  have mapped := List.map_snd_zip (Nat.le_of_eq length_eq)
  rw [← mapped] at member
  obtain ⟨⟨op, other⟩, linkMember, rfl⟩ := List.mem_map.mp member
  exact ⟨op, (List.of_mem_zip linkMember).1, linkMember⟩

/-! ## The operands at the ends of a group -/

/-- A group ends with an operator that is the last one of a group on its right spine, and
the operand behind it. -/
theorem exists_last_of_ordered {operators : List ο} {operands : List (Tree α ο)}
    (ordered : (group operators operands).Ordered order) :
    ∃ before op operand,
      elementsOf operators operands = before ++ [.operator op, .operand operand] ∧
      ∃ spine ∈ (group operators operands).rightSpine, spine.getLast? = some op := by
  generalize tree_eq : group operators operands = tree at ordered
  induction ordered generalizing operators operands with
  | leaf operand => contradiction
  | @group operators operands nonempty arity _ _ _ within ih =>
      cases tree_eq
      obtain ⟨first, op, rfl⟩ : ∃ first op, operators = first ++ [op] :=
        ⟨_, _, (List.dropLast_concat_getLast nonempty).symm⟩
      obtain ⟨front, last, rfl⟩ : ∃ front last, operands = front ++ [last] :=
        ⟨_, _, (List.dropLast_concat_getLast (by rintro rfl; simp at arity)).symm⟩
      have length_eq : front.length = (first ++ [op]).length := by simpa using arity
      have elements_eq : elementsOf (first ++ [op]) (front ++ [last]) =
          elementsOf (first ++ [op]) front ++ last.elements :=
        elementsOf_append_operand length_eq last
      have before_eq := getLast?_elementsOf length_eq []
      obtain ⟨before, before_eq⟩ := List.getLast?_eq_some_iff.mp before_eq
      rw [List.nil_append] at before_eq
      rw [rightSpine, rightSpineOf_append]
      cases last with
      | leaf operand =>
          refine ⟨before, op, operand, ?_, first ++ [op], by simp, by simp⟩
          rw [elements_eq, before_eq, elements_leaf, List.append_assoc]
          rfl
      | group operators operands =>
          obtain ⟨before', op', operand', inner_eq, spine, member, spine_eq⟩ :=
            ih (.group operators operands) (by simp) rfl
          refine ⟨elementsOf (first ++ [op]) front ++ before', op', operand', ?_, spine,
            List.mem_cons_of_mem _ member, spine_eq⟩
          rw [elements_eq, elements_group, inner_eq, List.append_assoc]

/-- A group starts with an operand, and behind it the first operator of a group on its left
spine. -/
theorem exists_first_of_ordered {operators : List ο} {operands : List (Tree α ο)}
    (ordered : (group operators operands).Ordered order) :
    ∃ operand op behind,
      elementsOf operators operands = .operand operand :: .operator op :: behind ∧
      ∃ spine ∈ (group operators operands).leftSpine, spine.head? = some op := by
  generalize tree_eq : group operators operands = tree at ordered
  induction ordered generalizing operators operands with
  | leaf operand => contradiction
  | group nonempty arity _ _ _ within ih =>
      cases tree_eq
      obtain ⟨op, rest, rfl⟩ := List.exists_cons_of_ne_nil nonempty
      obtain ⟨first, back, rfl⟩ := List.exists_cons_of_length_eq_add_one arity
      rw [leftSpine, elementsOf_cons]
      cases first with
      | leaf operand => exact ⟨operand, op, _, rfl, op :: rest, by simp, rfl⟩
      | group operators operands =>
          obtain ⟨operand', op', behind', inner_eq, spine, member, spine_eq⟩ :=
            ih _ List.mem_cons_self rfl
          rw [elements_group, inner_eq]
          exact ⟨operand', op', _, rfl, spine, List.mem_cons_of_mem _ member, spine_eq⟩

/-- An ordered tree starts with an operand. -/
theorem exists_head_of_ordered {tree : Tree α ο} (ordered : tree.Ordered order) :
    ∃ operand, tree.elements.head? = some (.operand operand) := by
  cases tree with
  | leaf operand => exact ⟨operand, rfl⟩
  | group operators operands =>
      obtain ⟨operand, op, behind, elements_eq, -⟩ := exists_first_of_ordered ordered
      exact ⟨operand, by rw [elements_group, elements_eq]; rfl⟩

section Ends

variable {before behind : List (Element α ο)} {op : ο} {operators : List ο}
  {operands : List (Tree α ο)} {operand : Tree α ο}

/-- The first operand of a group is the operand right before its first operator, which
follows an operator that it is inside of; or it is a group, whose last operator ends it. -/
theorem Stands.first_operand
    (stands : Stands order before (group (op :: operators) (operand :: operands)) behind) :
    (∃ value, operand = .leaf value ∧
        ∀ left, before.getLast? = some (.operator left) → order left op = .ok .right) ∨
      ∃ front left value, operand.elements = front ++ [.operator left, .operand value] ∧
        order left op = .ok .left := by
  obtain _ | ⟨_, _, _, _, ends, within⟩ := stands.ordered
  cases operand with
  | leaf value =>
      refine .inl ⟨value, rfl, fun left last_eq => ?_⟩
      exact stands.starts left last_eq (op :: operators) List.mem_cons_self op rfl
  | group inner parts =>
      obtain ⟨front, left, value, elements_eq, spine, member, last_eq⟩ :=
        exists_last_of_ordered (within _ List.mem_cons_self)
      exact .inr ⟨front, left, value, elements_eq,
        ends _ (List.mem_cons_self) spine member left last_eq⟩

/-- The last operand of a group is the operand right behind its last operator, which an
operator follows that it ends before; or it is a group, whose first operator starts it. -/
theorem Stands.last_operand
    (stands : Stands order before (group (operators ++ [op]) (operands ++ [operand])) behind) :
    (∃ value, operand = .leaf value ∧
        ∀ right, behind.head? = some (.operator right) → order op right = .ok .left) ∨
      ∃ value right back, operand.elements = .operand value :: .operator right :: back ∧
        order op right = .ok .right := by
  obtain _ | ⟨_, arity, _, starts, _, within⟩ := stands.ordered
  cases operand with
  | leaf value =>
      refine .inl ⟨value, rfl, fun right head_eq => ?_⟩
      exact stands.ends right head_eq (operators ++ [op]) List.mem_cons_self op (by simp)
  | group inner parts =>
      obtain ⟨value, right, back, elements_eq, spine, member, head_eq⟩ :=
        exists_first_of_ordered (within (group inner parts) (by simp))
      refine .inr ⟨value, right, back, elements_eq, starts (op, _) ?_ spine member right head_eq⟩
      obtain ⟨operand, operands, rfl⟩ : ∃ operand' rest, operands = operand' :: rest :=
        List.exists_cons_of_length_pos (by simp at arity; omega)
      have length_eq : operators.length = operands.length := by simpa using arity.symm
      rw [List.cons_append, List.tail_cons, List.zip_append length_eq]
      simp

end Ends

end Tree

end Grouping

end OperatorMarkup
