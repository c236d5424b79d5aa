import Mathlib.Data.List.Forall2
import OperatorMarkup.Proofs.Grouping.Tree
import OperatorMarkup.Proofs.Except

/-!
# Grouping is parametric

Grouping looks at operands, operators and nodes through the answers of its
grammar alone.  So two grammars whose answers are related group related sequences
to related nodes, or fail with related errors.
-/

namespace OperatorMarkup

namespace Grouping

variable {α α' ο ο' ν ν' : Type}

/-- Elements of one sort, with related values. -/
inductive ElementRelated (operands : α → α' → Prop) (operators : ο → ο' → Prop) :
    Element α ο → Element α' ο' → Prop
  | operand {first : α} {second : α'} (related : operands first second) :
      ElementRelated operands operators (.operand first) (.operand second)
  | operator {first : ο} {second : ο'} (related : operators first second) :
      ElementRelated operands operators (.operator first) (.operator second)

/-- Two grammars give related answers to related questions. -/
structure GrammarRelated (operands : α → α' → Prop) (operators : ο → ο' → Prop)
    (nodes : ν → ν' → Prop) (errors : Error → Error → Prop)
    (first : Grammar (Except Error) α ο ν) (second : Grammar (Except Error) α' ο' ν') :
    Prop where
  order : ∀ left left' right right', operators left left' → operators right right' →
    Except.Related errors Eq (first.order left right) (second.order left' right')
  leaf : ∀ operand operand', operands operand operand' →
    Except.Related errors nodes (first.leaf operand) (second.leaf operand')
  node : ∀ ops ops' children children', List.Forall₂ operators ops ops' →
    List.Forall₂ nodes children children' →
    Except.Related errors nodes (first.node ops children) (second.node ops' children')
  mayStart : ∀ op op', operators op op' →
    Except.Related errors Eq (first.mayStart op) (second.mayStart op')
  mayEnd : ∀ op op', operators op op' →
    Except.Related errors Eq (first.mayEnd op) (second.mayEnd op')
  defect : ∀ defect, errors (.internal defect none) (.internal defect none)

/-- Open groups with related operators and operands. -/
structure FrameRelated (operators : ο → ο' → Prop) (nodes : ν → ν' → Prop)
    (first : Frame ο ν) (second : Frame ο' ν') : Prop where
  last : operators first.last second.last
  earlier : List.Forall₂ operators first.earlier second.earlier
  operands : List.Forall₂ nodes first.operands second.operands

/-- States with related open groups and related operands behind them. -/
inductive StateRelated (operators : ο → ο' → Prop) (nodes : ν → ν' → Prop) :
    State ο ν → State ο' ν' → Prop
  | operandDue {stack : List (Frame ο ν)} {stack' : List (Frame ο' ν')}
      (stacksRelated : List.Forall₂ (FrameRelated operators nodes) stack stack') :
      StateRelated operators nodes (.operandDue stack) (.operandDue stack')
  | operatorDue {stack : List (Frame ο ν)} {stack' : List (Frame ο' ν')} {current : ν}
      {current' : ν'} (stacksRelated : List.Forall₂ (FrameRelated operators nodes) stack stack')
      (related : nodes current current') :
      StateRelated operators nodes (.operatorDue stack current) (.operatorDue stack' current')

variable {operands : α → α' → Prop} {operators : ο → ο' → Prop} {nodes : ν → ν' → Prop}
  {errors : Error → Error → Prop}

namespace FrameRelated

variable {frame : Frame ο ν} {frame' : Frame ο' ν'} {op : ο} {op' : ο'} {current : ν}
  {current' : ν'}

theorem begin (ops : operators op op') (related : nodes current current') :
    FrameRelated operators nodes (.begin op current) (.begin op' current') :=
  ⟨ops, .nil, .cons related .nil⟩

theorem extend (frames : FrameRelated operators nodes frame frame') (ops : operators op op')
    (related : nodes current current') :
    FrameRelated operators nodes (frame.extend op current) (frame'.extend op' current') :=
  ⟨ops, .cons frames.last frames.earlier, .cons related frames.operands⟩

end FrameRelated

namespace GrammarRelated

variable {first : Grammar (Except Error) α ο ν} {second : Grammar (Except Error) α' ο' ν'}
  {stack : List (Frame ο ν)} {stack' : List (Frame ο' ν')} {current : ν} {current' : ν'}

/-- A grammar is related to itself, whatever else holds of all operators. -/
theorem self (grammar : Grammar (Except Error) α ο ν) (holds : ο → Prop) :
    GrammarRelated Eq (fun op op' => op = op' ∧ holds op) Eq Eq grammar grammar := by
  constructor
  · rintro left _ right _ ⟨rfl, _⟩ ⟨rfl, _⟩
    exact .refl _
  · rintro operand _ rfl
    exact .refl _
  · intro ops ops' children children' operators operands
    obtain rfl : ops = ops' := List.forall₂_eq_eq_eq ▸ operators.imp fun _ _ related => related.1
    obtain rfl : children = children' := List.forall₂_eq_eq_eq ▸ operands
    exact .refl _
  · rintro op _ ⟨rfl, _⟩
    exact .refl _
  · rintro op _ ⟨rfl, _⟩
    exact .refl _
  · exact fun _ => rfl

theorem close (related : GrammarRelated operands operators nodes errors first second)
    {frame : Frame ο ν} {frame' : Frame ο' ν'}
    (frames : FrameRelated operators nodes frame frame') (behind : nodes current current') :
    Except.Related errors nodes (first.close frame current) (second.close frame' current') := by
  apply related.node
  · exact List.rel_reverse (.cons frames.last frames.earlier)
  · exact List.rel_reverse (.cons behind frames.operands)

/-- A group that an operator starts is related, or both are refused. -/
theorem begin (related : GrammarRelated operands operators nodes errors first second) {op : ο}
    {op' : ο'} (ops : operators op op')
    (stacksRelated : List.Forall₂ (FrameRelated operators nodes) stack stack')
    (behind : nodes current current') :
    Except.Related errors (List.Forall₂ (FrameRelated operators nodes))
      ((first.mayStart op).map fun _ => .begin op current :: stack)
      ((second.mayStart op').map fun _ => .begin op' current' :: stack') :=
  (related.mayStart op op' ops).map fun _ _ _ => .cons (.begin ops behind) stacksRelated

theorem place (related : GrammarRelated operands operators nodes errors first second) {op : ο}
    {op' : ο'} (ops : operators op op')
    (stacksRelated : List.Forall₂ (FrameRelated operators nodes) stack stack')
    (behind : nodes current current') :
    Except.Related errors (List.Forall₂ (FrameRelated operators nodes))
      (first.place op stack current) (second.place op' stack' current') := by
  induction stacksRelated generalizing current current' with
  | nil =>
      rw [Grammar.place_nil, Grammar.place_nil]
      exact related.begin ops .nil behind
  | @cons frame frame' stack stack' frames stacksRelated ih =>
      have orders := related.order frame.last frame'.last op op' frames.last ops
      generalize decision : first.order frame.last op = answer at orders
      generalize decision' : second.order frame'.last op' = answer' at orders
      cases orders with
      | error failed =>
          rw [Grammar.place_error _ decision, Grammar.place_error _ decision']
          exact .error failed
      | @ok answer _ same =>
          subst same
          cases answer with
          | left =>
              rw [Grammar.place_left _ decision, Grammar.place_left _ decision']
              exact (related.close frames behind).bind fun _ _ closed => ih closed
          | right =>
              rw [Grammar.place_right _ decision, Grammar.place_right _ decision']
              exact related.begin ops (.cons frames stacksRelated) behind
          | aggregate =>
              rw [Grammar.place_aggregate _ decision, Grammar.place_aggregate _ decision']
              exact .ok (.cons (frames.extend ops behind) stacksRelated)

theorem closeAll (related : GrammarRelated operands operators nodes errors first second)
    (stacksRelated : List.Forall₂ (FrameRelated operators nodes) stack stack')
    (behind : nodes current current') :
    Except.Related errors nodes (first.closeAll stack current)
      (second.closeAll stack' current') := by
  induction stacksRelated generalizing current current' with
  | nil => exact .ok behind
  | cons frames _ ih =>
      rw [Grammar.closeAll_cons, Grammar.closeAll_cons]
      apply (related.mayEnd _ _ frames.last).bind
      intro _ _ _
      exact (related.close frames behind).bind fun _ _ closed => ih closed

theorem finish (related : GrammarRelated operands operators nodes errors first second)
    {state : State ο ν} {state' : State ο' ν'}
    (states : StateRelated operators nodes state state') :
    Except.Related errors nodes (first.finish state) (second.finish state') := by
  cases states with
  | operandDue _ => exact .error (related.defect _)
  | operatorDue stacksRelated behind => exact related.closeAll stacksRelated behind

/-- One element of either sequence is read alike. -/
theorem step (related : GrammarRelated operands operators nodes errors first second)
    {state : State ο ν} {state' : State ο' ν'} {element : Element α ο} {element' : Element α' ο'}
    (states : StateRelated operators nodes state state')
    (elements : ElementRelated operands operators element element') :
    Except.Related errors (StateRelated operators nodes) (first.step state element)
      (second.step state' element') := by
  cases states with
  | operandDue stacksRelated =>
      cases elements with
      | operand values =>
          rw [Grammar.step_operand, Grammar.step_operand]
          exact (related.leaf _ _ values).map fun _ _ => .operatorDue stacksRelated
      | operator _ => exact .error (related.defect _)
  | operatorDue stacksRelated behind =>
      cases elements with
      | operand _ => exact .error (related.defect _)
      | operator ops =>
          rw [Grammar.step_operator, Grammar.step_operator]
          exact (related.place ops stacksRelated behind).map fun _ _ => .operandDue

theorem read (related : GrammarRelated operands operators nodes errors first second)
    {state : State ο ν} {state' : State ο' ν'} {elements : List (Element α ο)}
    {elements' : List (Element α' ο')} (states : StateRelated operators nodes state state')
    (sequences : List.Forall₂ (ElementRelated operands operators) elements elements') :
    Except.Related errors (StateRelated operators nodes) (first.read state elements)
      (second.read state' elements') := by
  induction sequences generalizing state state' with
  | nil => exact .ok states
  | cons head _ ih =>
      rw [Grammar.read_cons, Grammar.read_cons]
      exact (related.step states head).bind fun _ _ next => ih next

/-- Related sequences are grouped to related nodes, or fail with related errors. -/
theorem group (related : GrammarRelated operands operators nodes errors first second)
    {elements : List (Element α ο)} {elements' : List (Element α' ο')}
    (sequences : List.Forall₂ (ElementRelated operands operators) elements elements') :
    Except.Related errors nodes (first.group (elements.map .ok))
      (second.group (elements'.map .ok)) := by
  rw [Grammar.group_map_ok, Grammar.group_map_ok]
  exact (related.read (.operandDue .nil) sequences).bind fun _ _ => related.finish

end GrammarRelated

end Grouping

end OperatorMarkup
