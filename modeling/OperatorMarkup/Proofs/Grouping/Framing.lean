import OperatorMarkup.Proofs.Grouping.Relating
import OperatorMarkup.Proofs.Grouping.Reading

/-!
# Grouping inside an open group

What is read behind an operator whose group stays open is grouped as if it stood
alone, on top of the groups that were open before.  Once it is complete, it counts
as one operand of that group.
-/

namespace OperatorMarkup

namespace Grouping

variable {α ο ν : Type}

/-- The same state on top of other open groups. -/
def State.onto (lower : List (Frame ο ν)) : State ο ν → State ο ν
  | operandDue stack => operandDue (stack ++ lower)
  | operatorDue stack current => operatorDue (stack ++ lower) current

end Grouping

namespace Grammar

open Grouping

variable {α ο ν : Type} {grammar : Grammar (Except Error) α ο ν} {outer : Frame ο ν}
  {lower stack placed : List (Frame ο ν)} {current : ν} {op : ο}
  {elements : List (Element α ο)}

/-- An operator is placed on top of a group that stays open before it as on top of
nothing. -/
theorem place_onto
    (stays : grammar.mayStart op = .ok () → grammar.order outer.last op = .ok .right)
    (place_eq : grammar.place op stack current = .ok placed) :
    grammar.place op (stack ++ outer :: lower) current = .ok (placed ++ outer :: lower) := by
  induction stack generalizing current with
  | nil =>
      rw [place_nil] at place_eq
      obtain ⟨_, allowed, rfl⟩ := Except.map_eq_ok_iff.mp place_eq
      rw [List.nil_append, place_right _ (stays allowed), allowed]
      rfl
  | cons frame stack ih =>
      rw [List.cons_append]
      cases decision : grammar.order frame.last op with
      | error error =>
          rw [place_error _ decision] at place_eq
          contradiction
      | ok answer =>
          cases answer with
          | left =>
              rw [place_left _ decision] at place_eq ⊢
              obtain ⟨closed, close_eq, rest_eq⟩ := Except.bind_eq_ok_iff.mp place_eq
              rw [close_eq]
              exact ih rest_eq
          | right =>
              rw [place_right _ decision] at place_eq ⊢
              obtain ⟨_, allowed, rfl⟩ := Except.map_eq_ok_iff.mp place_eq
              rw [allowed]
              rfl
          | aggregate =>
              rw [place_aggregate _ decision] at place_eq ⊢
              obtain rfl := Except.ok.inj place_eq
              rfl

/-- A sequence is read on top of a group that stays open before its operators as on
top of nothing. -/
theorem read_onto (outer : Frame ο ν) (lower : List (Frame ο ν)) {state reached : State ο ν}
    (stays : ∀ op, .operator op ∈ elements → grammar.mayStart op = .ok () →
      grammar.order outer.last op = .ok .right)
    (read_eq : grammar.read state elements = .ok reached) :
    grammar.read (state.onto (outer :: lower)) elements = .ok (reached.onto (outer :: lower)) := by
  induction elements generalizing state with
  | nil =>
      obtain rfl := Except.ok.inj read_eq
      rfl
  | cons element elements ih =>
      rw [read_cons] at read_eq ⊢
      obtain ⟨next, step_eq, rest_eq⟩ := Except.bind_eq_ok_iff.mp read_eq
      have rest := ih (fun op member => stays op (List.mem_cons_of_mem _ member)) rest_eq
      have stepped : grammar.step (state.onto (outer :: lower)) element =
          .ok (next.onto (outer :: lower)) := by
        cases state with
        | operandDue stack =>
            cases element with
            | operator _ => contradiction
            | operand value =>
                rw [State.onto, step_operand] at *
                obtain ⟨node, leaf_eq, rfl⟩ := Except.map_eq_ok_iff.mp step_eq
                rw [leaf_eq]
                rfl
        | operatorDue stack current =>
            cases element with
            | operand _ => contradiction
            | operator op =>
                rw [State.onto, step_operator] at *
                obtain ⟨placed, place_eq, rfl⟩ := Except.map_eq_ok_iff.mp step_eq
                rw [place_onto (stays op List.mem_cons_self) place_eq]
                rfl
      rw [stepped]
      exact rest

/-- An operator that ends all groups on top of others finds what the end of the
sequence would make of them. -/
theorem place_of_closeAll {node : ν}
    (ends : ∀ frame ∈ stack, grammar.mayEnd frame.last = .ok () →
      grammar.order frame.last op = .ok .left)
    (close_eq : grammar.closeAll stack current = .ok node) :
    grammar.place op (stack ++ lower) current = grammar.place op lower node := by
  induction stack generalizing current with
  | nil =>
      obtain rfl := Except.ok.inj close_eq
      rfl
  | cons frame stack ih =>
      rw [List.forall_mem_cons] at ends
      rw [closeAll_cons] at close_eq
      obtain ⟨_, allowed, rest_eq⟩ := Except.bind_eq_ok_iff.mp close_eq
      obtain ⟨closed, closed_eq, rest_eq⟩ := Except.bind_eq_ok_iff.mp rest_eq
      rw [List.cons_append, place_left _ (ends.1 allowed), closed_eq]
      exact ih ends.2 rest_eq

/-- An operator that was placed is the last one of the innermost group. -/
theorem exists_last_of_place (place_eq : grammar.place op stack current = .ok placed) :
    ∃ frame rest, placed = frame :: rest ∧ frame.last = op := by
  induction stack generalizing current with
  | nil =>
      rw [place_nil] at place_eq
      obtain ⟨_, _, rfl⟩ := Except.map_eq_ok_iff.mp place_eq
      exact ⟨_, _, rfl, rfl⟩
  | cons frame stack ih =>
      cases decision : grammar.order frame.last op with
      | error error =>
          rw [place_error _ decision] at place_eq
          contradiction
      | ok answer =>
          cases answer with
          | left =>
              rw [place_left _ decision] at place_eq
              obtain ⟨closed, _, rest_eq⟩ := Except.bind_eq_ok_iff.mp place_eq
              exact ih rest_eq
          | right =>
              rw [place_right _ decision] at place_eq
              obtain ⟨_, _, rfl⟩ := Except.map_eq_ok_iff.mp place_eq
              exact ⟨_, _, rfl, rfl⟩
          | aggregate =>
              rw [place_aggregate _ decision] at place_eq
              obtain rfl := Except.ok.inj place_eq
              exact ⟨_, _, rfl, rfl⟩

/-- Behind an operator, it is the last one of the innermost group. -/
theorem exists_last_of_read {state reached : State ο ν}
    (read_eq : grammar.read state (elements ++ [.operator op]) = .ok reached) :
    ∃ frame rest, reached = .operandDue (frame :: rest) ∧ frame.last = op := by
  rw [read_append] at read_eq
  obtain ⟨middle, _, last_eq⟩ := Except.bind_eq_ok_iff.mp read_eq
  rw [read_cons] at last_eq
  obtain ⟨next, step_eq, rest_eq⟩ := Except.bind_eq_ok_iff.mp last_eq
  obtain rfl := Except.ok.inj rest_eq
  clear read_eq last_eq
  cases middle with
  | operandDue stack => contradiction
  | operatorDue stack current =>
      rw [step_operator] at step_eq
      obtain ⟨placed, place_eq, rfl⟩ := Except.map_eq_ok_iff.mp step_eq
      obtain ⟨frame, rest, rfl, last_eq⟩ := exists_last_of_place place_eq
      exact ⟨frame, rest, rfl, last_eq⟩

/-- The groups that are open behind a sequence end with its operators. -/
theorem mem_of_read (read_eq : grammar.read (.operandDue []) elements =
    .ok (.operatorDue stack current)) : ∀ frame ∈ stack, .operator frame.last ∈ elements := by
  have same : List.Forall₂ (ElementRelated Eq fun op op' => op = op' ∧ .operator op ∈ elements)
      elements elements := by
    rw [List.forall₂_same]
    intro element member
    cases element with
    | operand value => exact .operand rfl
    | operator op => exact .operator ⟨rfl, member⟩
  have states := (GrammarRelated.self grammar _).read (.operandDue .nil) same
  rw [read_eq] at states
  obtain ⟨_, same_eq, related⟩ := states.exists_of_ok
  cases same_eq
  cases related with
  | operatorDue stacksRelated _ =>
      intro frame member
      exact (List.forall₂_same.mp stacksRelated frame member).last.2

/-- A group whose last operator ends it before whatever comes next may as well be
closed. -/
theorem read_closed {frame : Frame ο ν} {node : ν}
    (allowed : grammar.mayEnd frame.last = .ok ())
    (close_eq : grammar.close frame current = .ok node)
    (ends : ∀ op, .operator op ∈ elements → grammar.order frame.last op = .ok .left) :
    (grammar.read (.operatorDue (frame :: lower) current) elements).bind grammar.finish =
      (grammar.read (.operatorDue lower node) elements).bind grammar.finish := by
  cases elements with
  | nil =>
      change grammar.closeAll (frame :: lower) current = grammar.closeAll lower node
      rw [closeAll_cons, allowed]
      change Except.bind (grammar.close frame current) _ = _
      rw [close_eq]
      rfl
  | cons element elements =>
      cases element with
      | operand value => rfl
      | operator op =>
          have ends := ends op List.mem_cons_self
          rw [read_cons, read_cons, step_operator, step_operator, place_left _ ends, close_eq]
          rfl

end Grammar

/-- The same element with the value of an operand changed. -/
def Element.mapOperand {α β ο : Type} (f : α → β) : Element α ο → Element β ο
  | .operand value => .operand (f value)
  | .operator op => .operator op

namespace Grouping

variable {α ο : Type}

/-! ## A tree in the place of an operand -/

namespace Tree

mutual

/-- A tree with another one in the place of the operands that are left open. -/
def plug : Tree (Option α) ο → Tree α ο → Tree α ο
  | leaf none, filling => filling
  | leaf (some operand), _ => leaf operand
  | group operators operands, filling => group operators (plugAll operands filling)

/-- The same for some trees. -/
def plugAll : List (Tree (Option α) ο) → Tree α ο → List (Tree α ο)
  | [], _ => []
  | operand :: operands, filling => operand.plug filling :: plugAll operands filling

end

end Tree

/-- An open operand between two parts of a sequence. -/
def hollow (before after : List (Element α ο)) : List (Element (Option α) ο) :=
  before.map (.mapOperand some) ++ .operand none :: after.map (.mapOperand some)

variable {order : ο → ο → Except Error Decision} {mayStart mayEnd : ο → Except Error Unit}

theorem elements_mapOperand_related (elements : List (Element α ο)) :
    List.Forall₂ (ElementRelated (fun operand value => value = some operand) Eq) elements
      (elements.map (.mapOperand some)) := by
  rw [List.forall₂_map_right_iff, List.forall₂_same]
  intro element _
  cases element with
  | operand value => exact .operand rfl
  | operator op => exact .operator rfl

/-- Whatever the open operands are filled with, grouping goes alike. -/
theorem trees_plug_related (filling : Tree α ο) :
    GrammarRelated (fun operand value => value = some operand) Eq
      (fun tree outer => tree = outer.plug filling) Eq (Grammar.trees order mayStart mayEnd)
      (Grammar.trees order mayStart mayEnd) := by
  constructor
  · rintro left _ right _ rfl rfl
    exact .refl _
  · rintro operand _ rfl
    exact .ok rfl
  · intro ops ops' children children' operators nodes
    obtain rfl : ops = ops' := List.forall₂_eq_eq_eq ▸ operators
    apply Except.Related.ok
    rw [Tree.plug]
    congr 1
    induction nodes with
    | nil => rfl
    | cons node _ ih => rw [Tree.plugAll, node, ih]
  · rintro op _ rfl
    exact .refl _
  · rintro op _ rfl
    exact .refl _
  · exact fun _ => rfl

/-- Two operators enclose what lies between them: a group starts at the first one
whatever stands before it, stays open up to the second one, and ends there whatever
stands behind it. -/
structure Encloses (order : ο → ο → Except Error Decision) (mayStart mayEnd : ο → Except Error Unit)
    (opener closer : ο) (before inside after : List (Element α ο)) : Prop where
  starts : ∀ op, before.getLast? = some (.operator op) → order op opener = .ok .right
  allowed : mayStart opener = .ok ()
  stays : ∀ op, .operator op ∈ inside → mayStart op = .ok () → order opener op = .ok .right
  ends : ∀ op, .operator op ∈ inside → mayEnd op = .ok () → order op closer = .ok .left
  pairs : order opener closer = .ok .aggregate
  closed : mayEnd closer = .ok ()
  leaves : ∀ op, .operator op ∈ after → order closer op = .ok .left

namespace Encloses

variable {opener closer : ο} {before inside after : List (Element α ο)} {first last : α}
  {tree : Tree α ο} {base : List (Frame ο (Tree α ο))}

/-- The opener starts a group on top of all that are open before it. -/
theorem place_opener (encloses : Encloses order mayStart mayEnd opener closer before inside after)
    (read_eq : (Grammar.trees order mayStart mayEnd).read (.operandDue []) before =
      .ok (.operandDue base)) (current : Tree α ο) :
    (Grammar.trees order mayStart mayEnd).place opener base current =
      .ok (.begin opener current :: base) := by
  have started : (Grammar.trees order mayStart mayEnd : Grammar _ α ο _).mayStart opener = .ok () :=
    encloses.allowed
  rcases List.eq_nil_or_concat before with rfl | ⟨front, element, rfl⟩
  · cases read_eq
    rw [Grammar.place_nil, started]
    rfl
  · rw [List.concat_eq_append] at read_eq
    have starts := encloses.starts
    cases element with
    | operand value =>
        rw [Grammar.read_append] at read_eq
        obtain ⟨middle, _, last_eq⟩ := Except.bind_eq_ok_iff.mp read_eq
        cases middle <;> cases last_eq
    | operator op =>
        obtain ⟨frame, rest, reached_eq, rfl⟩ := Grammar.exists_last_of_read read_eq
        obtain rfl := State.operandDue.inj reached_eq
        rw [Grammar.place_right _ (starts frame.last (by simp)), started]
        rfl

/-- What is enclosed is read up to the closer as the operands of one group. -/
theorem read_closer (encloses : Encloses order mayStart mayEnd opener closer before inside after)
    (before_eq : (Grammar.trees order mayStart mayEnd).read (.operandDue []) before =
      .ok (.operandDue base))
    (inner_eq : (Grammar.trees order mayStart mayEnd).group (inside.map .ok) = .ok tree) :
    (Grammar.trees order mayStart mayEnd).read (.operandDue base)
        (.operand first :: .operator opener :: inside ++ [.operator closer]) =
      .ok (.operandDue ((Frame.begin opener (.leaf first)).extend closer tree :: base)) := by
  rw [Grammar.group_map_ok] at inner_eq
  obtain ⟨reached, inside_eq, close_eq⟩ := Except.bind_eq_ok_iff.mp inner_eq
  cases reached with
  | operandDue stack => contradiction
  | operatorDue stack current =>
      have onto := Grammar.read_onto (.begin opener (.leaf first)) base encloses.stays inside_eq
      have closing : (Grammar.trees order mayStart mayEnd).place closer
          (stack ++ Frame.begin opener (.leaf first) :: base) current =
            .ok ((Frame.begin opener (.leaf first)).extend closer tree :: base) := by
        -- The closer ends the groups inside in the way that the end of a sequence does.
        rw [Grammar.place_of_closeAll _ close_eq]
        · exact Grammar.place_aggregate _ encloses.pairs
        · exact fun frame member => encloses.ends frame.last
            (Grammar.mem_of_read inside_eq frame member)
      rw [List.cons_append, List.cons_append, Grammar.read_cons, Grammar.step_operand]
      change (Grammar.trees order mayStart mayEnd).read (.operatorDue base (.leaf first)) _ = _
      rw [Grammar.read_cons, Grammar.step_operator, encloses.place_opener before_eq]
      change (Grammar.trees order mayStart mayEnd).read
        (.operandDue (.begin opener (.leaf first) :: base)) _ = _
      rw [Grammar.read_append]
      change Except.bind ((Grammar.trees order mayStart mayEnd).read
        ((State.operandDue []).onto (.begin opener (.leaf first) :: base)) inside) _ = _
      rw [onto]
      change (Grammar.trees order mayStart mayEnd).read (.operatorDue
        (stack ++ Frame.begin opener (.leaf first) :: base) current) _ = _
      rw [Grammar.read_cons, Grammar.step_operator, closing]
      rfl

/-- What is enclosed counts as one operand of what lies around it: grouping a sequence
gives the tree of the sequence with an open operand in its place, filled with the
group of the two operators. -/
theorem group_eq (encloses : Encloses order mayStart mayEnd opener closer before inside after)
    (inner_eq : (Grammar.trees order mayStart mayEnd).group (inside.map .ok) = .ok tree)
    {whole : Tree α ο}
    (whole_eq : (Grammar.trees order mayStart mayEnd).group
      (List.map Except.ok (before ++ (.operand first :: .operator opener :: inside ++
        [.operator closer] ++ .operand last :: after))) = .ok whole) :
    ∃ outer, (Grammar.trees order mayStart mayEnd).group ((hollow before after).map .ok) =
        .ok outer ∧
      whole = outer.plug (.group [opener, closer] [.leaf first, tree, .leaf last]) := by
  have related := @trees_plug_related α ο order mayStart mayEnd
    (.group [opener, closer] [.leaf first, tree, .leaf last])
  rw [Grammar.group_map_ok, Grammar.read_append] at whole_eq
  cases before_eq : (Grammar.trees order mayStart mayEnd).read (.operandDue []) before with
  | error error =>
      rw [before_eq] at whole_eq
      contradiction
  | ok reached =>
      rw [before_eq] at whole_eq
      cases reached with
      | operatorDue stack current => cases whole_eq
      | operandDue base =>
          change Except.bind (Grammar.read _ _ _) _ = _ at whole_eq
          rw [Grammar.read_append, encloses.read_closer before_eq inner_eq] at whole_eq
          change Except.bind (Grammar.read _ (.operatorDue
            ((Frame.begin opener (.leaf first)).extend closer tree :: base) (.leaf last)) after) _ =
              _ at whole_eq
          -- No operator behind the closer joins its group, so the group is closed at once.
          rw [Grammar.read_closed encloses.closed (trees_close _ _) encloses.leaves] at whole_eq
          have outerBefore := related.read (.operandDue .nil) (elements_mapOperand_related before)
          rw [before_eq] at outerBefore
          obtain ⟨_, hollow_eq, states⟩ := outerBefore.exists_of_ok
          cases states with
          | @operandDue _ stack' stacksRelated =>
              have reached : StateRelated _ _ (.operatorDue base
                  (((Frame.begin opener (.leaf first)).extend closer tree).toTree (.leaf last)))
                  (.operatorDue stack' (.leaf none)) := .operatorDue stacksRelated rfl
              have behind := (related.read reached (elements_mapOperand_related after)).bind
                fun _ _ => related.finish
              rw [whole_eq] at behind
              obtain ⟨outer, outer_eq, plugged⟩ := behind.exists_of_ok
              refine ⟨outer, ?_, plugged⟩
              rw [Grammar.group_map_ok, hollow, Grammar.read_append, hollow_eq]
              exact outer_eq

end Encloses

end Grouping

end OperatorMarkup
