import OperatorMarkup.Proofs.Grouping.Reading
import OperatorMarkup.Proofs.Grouping.Standing

/-!
# What a grammar is asked about its groups

An operator is asked whether it may start a group before it does, and the last operator of a
group whether it may end there, unless another operator ends the group.  Every group of a tree
that grouping comes to has been through these questions.
-/

namespace OperatorMarkup

namespace Grouping

variable {α ο : Type} {order : ο → ο → Except Error Decision}
  {mayStart mayEnd : ο → Except Error Unit} {among : ο → Prop}

open Grouping.Tree

/-- The first operator of a group may start one, and the last one may end one or is ended by
another operator among some. -/
structure Admitted (order : ο → ο → Except Error Decision) (mayStart mayEnd : ο → Except Error Unit)
    (among : ο → Prop) (operators : List ο) : Prop where
  starts : ∀ first ∈ operators.head?, mayStart first = .ok ()
  ends : ∀ last ∈ operators.getLast?,
    mayEnd last = .ok () ∨ ∃ next, among next ∧ order last next = .ok .left

/-- All groups of a tree are admitted. -/
abbrev AllAdmitted (order : ο → ο → Except Error Decision) (mayStart mayEnd : ο → Except Error Unit)
    (among : ο → Prop) (tree : Tree α ο) : Prop :=
  tree.Every fun operators _ => Admitted order mayStart mayEnd among operators

/-- An open group starts with an operator that may start one, and all groups in it are
admitted. -/
structure Frame.Admitted (order : ο → ο → Except Error Decision)
    (mayStart mayEnd : ο → Except Error Unit) (among : ο → Prop) (frame : Frame ο (Tree α ο)) :
    Prop where
  starts : ∀ first ∈ frame.operators.head?, mayStart first = .ok ()
  within : ∀ operand ∈ frame.operands, AllAdmitted order mayStart mayEnd among operand

namespace Frame.Admitted

variable {frame : Frame ο (Tree α ο)} {op : ο} {operand last : Tree α ο}

theorem begin (allowed : mayStart op = .ok ())
    (admitted : AllAdmitted order mayStart mayEnd among operand) :
    (Frame.begin op operand).Admitted order mayStart mayEnd among := by
  constructor
  · simpa [Frame.begin, operators] using allowed
  · simpa [Frame.begin] using admitted

theorem extend (frameAdmitted : frame.Admitted order mayStart mayEnd among)
    (admitted : AllAdmitted order mayStart mayEnd among operand) :
    (frame.extend op operand).Admitted order mayStart mayEnd among := by
  constructor
  · intro first member
    rw [operators_extend, operators_eq, List.append_assoc] at member
    apply frameAdmitted.starts
    rw [operators_eq]
    cases earlier_eq : frame.earlier.reverse <;> simpa [earlier_eq] using member
  · exact List.forall_mem_cons.mpr ⟨admitted, frameAdmitted.within⟩

/-- Closing an open group whose last operator may end there leaves all groups admitted. -/
theorem toTree (frameAdmitted : frame.Admitted order mayStart mayEnd among)
    (admitted : AllAdmitted order mayStart mayEnd among last)
    (ends : mayEnd frame.last = .ok () ∨ ∃ next, among next ∧ order frame.last next = .ok .left) :
    AllAdmitted order mayStart mayEnd among (frame.toTree last) := by
  refine .group ⟨frameAdmitted.starts, ?_⟩ ?_
  · rw [operators_eq, List.getLast?_concat]
    rintro _ ⟨⟩
    exact ends
  · intro operand member
    rcases List.mem_append.mp member with earlier | final
    · exact frameAdmitted.within operand (List.mem_reverse.mp earlier)
    · rw [List.mem_singleton.mp final]
      exact admitted

end Frame.Admitted

/-- The open groups of a state are admitted so far, and so is all that was read. -/
def State.Admitted (order : ο → ο → Except Error Decision) (mayStart mayEnd : ο → Except Error Unit)
    (among : ο → Prop) : State ο (Tree α ο) → Prop
  | operandDue stack => ∀ frame ∈ stack, frame.Admitted order mayStart mayEnd among
  | operatorDue stack current =>
      (∀ frame ∈ stack, frame.Admitted order mayStart mayEnd among) ∧
        AllAdmitted order mayStart mayEnd among current

theorem place_admitted {op : ο} {stack placed : List (Frame ο (Tree α ο))} {current : Tree α ο}
    (frames : ∀ frame ∈ stack, frame.Admitted order mayStart mayEnd among)
    (admitted : AllAdmitted order mayStart mayEnd among current)
    (opAmong : among op)
    (place_eq : (Grammar.trees order mayStart mayEnd).place op stack current = .ok placed) :
    ∀ frame ∈ placed, frame.Admitted order mayStart mayEnd among := by
  induction stack generalizing current with
  | nil =>
      rw [Grammar.place_nil] at place_eq
      obtain ⟨_, allowed, rfl⟩ := Except.map_eq_ok_iff.mp place_eq
      exact List.forall_mem_singleton.mpr (.begin allowed admitted)
  | cons frame stack ih =>
      cases decision : order frame.last op with
      | error error =>
          rw [Grammar.place_error _ decision] at place_eq
          contradiction
      | ok answer =>
          cases answer with
          | left =>
              rw [Grammar.place_left _ decision, trees_close] at place_eq
              rw [List.forall_mem_cons] at frames
              exact ih frames.2 (frames.1.toTree admitted (.inr ⟨op, opAmong, decision⟩)) place_eq
          | right =>
              rw [Grammar.place_right _ decision] at place_eq
              obtain ⟨_, allowed, rfl⟩ := Except.map_eq_ok_iff.mp place_eq
              exact List.forall_mem_cons.mpr ⟨.begin allowed admitted, frames⟩
          | aggregate =>
              rw [Grammar.place_aggregate _ decision] at place_eq
              obtain rfl := Except.ok.inj place_eq
              rw [List.forall_mem_cons] at frames ⊢
              exact ⟨frames.1.extend admitted, frames.2⟩

theorem step_admitted {state next : State ο (Tree α ο)} {element : Element α ο}
    (admitted : state.Admitted order mayStart mayEnd among)
    (elementAmong : ∀ op, element = .operator op → among op)
    (step_eq : (Grammar.trees order mayStart mayEnd).step state element = .ok next) :
    next.Admitted order mayStart mayEnd among := by
  cases state with
  | operandDue stack =>
      cases element with
      | operator op => contradiction
      | operand value =>
          rw [Grammar.step_operand] at step_eq
          obtain ⟨current, leaf_eq, rfl⟩ := Except.map_eq_ok_iff.mp step_eq
          obtain rfl := Except.ok.inj leaf_eq
          exact ⟨admitted, .leaf value⟩
  | operatorDue stack current =>
      cases element with
      | operand value => contradiction
      | operator op =>
          rw [Grammar.step_operator] at step_eq
          obtain ⟨placed, place_eq, rfl⟩ := Except.map_eq_ok_iff.mp step_eq
          exact place_admitted admitted.1 admitted.2 (elementAmong op rfl) place_eq

theorem read_admitted {state last : State ο (Tree α ο)} {elements : List (Element α ο)}
    (admitted : state.Admitted order mayStart mayEnd among)
    (allAmong : ∀ op, .operator op ∈ elements → among op)
    (read_eq : (Grammar.trees order mayStart mayEnd).read state elements = .ok last) :
    last.Admitted order mayStart mayEnd among := by
  induction elements generalizing state with
  | nil =>
      obtain rfl := Except.ok.inj read_eq
      exact admitted
  | cons element elements ih =>
      rw [Grammar.read_cons] at read_eq
      obtain ⟨next, step_eq, rest_eq⟩ := Except.bind_eq_ok_iff.mp read_eq
      have here : ∀ op, element = .operator op → among op := by
        rintro op rfl
        exact allAmong op List.mem_cons_self
      exact ih (step_admitted admitted here step_eq)
        (fun op later => allAmong op (List.mem_cons_of_mem _ later)) rest_eq

theorem closeAll_admitted {stack : List (Frame ο (Tree α ο))} {current tree : Tree α ο}
    (frames : ∀ frame ∈ stack, frame.Admitted order mayStart mayEnd among)
    (admitted : AllAdmitted order mayStart mayEnd among current)
    (close_eq : (Grammar.trees order mayStart mayEnd).closeAll stack current = .ok tree) :
    AllAdmitted order mayStart mayEnd among tree := by
  induction stack generalizing current with
  | nil =>
      obtain rfl := Except.ok.inj close_eq
      exact admitted
  | cons frame stack ih =>
      rw [Grammar.closeAll_cons, trees_close] at close_eq
      obtain ⟨_, allowed, rest_eq⟩ := Except.bind_eq_ok_iff.mp close_eq
      rw [List.forall_mem_cons] at frames
      exact ih frames.2 (frames.1.toTree admitted (.inl allowed)) rest_eq

/-- All groups of the tree of a sequence are admitted. -/
theorem admitted_of_group_eq_ok {elements : List (Element α ο)} {tree : Tree α ο}
    (allAmong : ∀ op, .operator op ∈ elements → among op)
    (group_eq : (Grammar.trees order mayStart mayEnd).group (elements.map .ok) = .ok tree) :
    AllAdmitted order mayStart mayEnd among tree := by
  rw [Grammar.group_map_ok] at group_eq
  obtain ⟨last, read_eq, finish_eq⟩ := Except.bind_eq_ok_iff.mp group_eq
  have started : State.Admitted order mayStart mayEnd among
      (.operandDue ([] : List (Frame ο (Tree α ο)))) :=
    fun _ member => absurd member List.not_mem_nil
  have final := read_admitted started allAmong read_eq
  cases last with
  | operandDue stack => contradiction
  | operatorDue stack current => exact closeAll_admitted final.1 final.2 finish_eq

end Grouping

end OperatorMarkup
