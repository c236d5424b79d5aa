import OperatorMarkup.Proofs.Tree.Layout
import OperatorMarkup.Tree.Whitespace

/-!
# Settled whitespace

The pass with a stack settles whitespace as the recursion does.  Settling moves
whitespace outward and never into a text, so a tree that covers a source still
does, and what a node keeps or hands on stands at its edges.
-/

namespace OperatorMarkup

namespace Node

variable {lexicon : Lexicon} {source : Source}

theorem size_le_sizeAll {child : Node} {siblings : List Node} (member : child ∈ siblings) :
    child.size ≤ sizeAll siblings := by
  induction siblings with
  | nil => contradiction
  | cons first siblings ih =>
      rw [sizeAll_cons]
      rcases List.mem_cons.mp member with rfl | later
      · exact Nat.le_add_right _ _
      · exact Nat.le_trans (ih later) (Nat.le_add_left _ _)

/-- What holds of a node where it holds of its operands holds of every node. -/
theorem induction {motive : Node → Prop}
    (step : ∀ node, (∀ child ∈ node.children, motive child) → motive node) (node : Node) :
    motive node := by
  induction size_def : node.size using Nat.strongRecOn generalizing node with
  | ind size ih =>
      apply step
      intro child member
      apply ih child.size _ child rfl
      rw [← size_def, size_eq node, Nat.add_comm]
      exact Nat.lt_succ_of_le (size_le_sizeAll member)

/-! ## The pass with a stack -/

/-- The node when the recursion has settled the operands that are still to be settled. -/
def Entered.finish (source : Source) (entry : Entered) : Entered :=
  let others := settleOperands source entry.settled.isEmpty entry.pending
  { entry with
    settled := others.1.reverse ++ entry.settled
    pending := []
    left := if entry.settled.isEmpty && !entry.pending.isEmpty then others.2.1 else entry.left
    right := if entry.pending.isEmpty then entry.right else others.2.2 }

theorem Entered.finish_of_next?_eq_none {entry : Entered} (none : entry.next? = none) :
    entry.finish source = entry := by
  obtain ⟨node, owns, settled, pending, left, right⟩ := entry
  cases pending with
  | nil => simp [finish, settleOperands]
  | cons => contradiction

/-- The operand that comes next may be settled before the others. -/
theorem Entered.finish_adopt {entry rest : Entered} {operand : Node} {owns : Ownership}
    (next_eq : entry.next? = some (operand, owns, rest)) :
    (rest.adopt (settleRec source operand owns)).finish source = entry.finish source := by
  obtain ⟨node, owns, settled, pending, left, right⟩ := entry
  cases pending with
  | nil => contradiction
  | cons child pending =>
      cases next_eq
      cases settled <;> cases pending <;> simp [finish, adopt, settleOperands]

/-- Go on with the nodes of a stack when a node on top of them is settled. -/
def settleAbove (source : Source) (settled : Settled) : List Entered → Settled
  | [] => settled
  | parent :: stack => settleStack source (parent.adopt settled) stack

/-- A node is settled on top of any stack as the recursion settles it. -/
def Settling (source : Source) (node : Node) : Prop :=
  ∀ owns stack, settleStack source (.start node owns) stack =
    settleAbove source (settleRec source node owns) stack

theorem settleStack_of_next? {entry rest : Entered} {operand : Node} {owns : Ownership}
    (next_eq : entry.next? = some (operand, owns, rest)) (stack : List Entered) :
    settleStack source entry stack = settleStack source (.start operand owns) (rest :: stack) := by
  rw [settleStack.eq_def]
  split
  · next other_eq =>
      cases next_eq.symm.trans other_eq
      rfl
  · next none => cases next_eq.symm.trans none

theorem settleStack_of_next?_eq_none {entry : Entered} (none : entry.next? = none)
    (stack : List Entered) :
    settleStack source entry stack = settleAbove source (entry.leave source) stack := by
  rw [settleStack.eq_def]
  split
  · next next_eq => cases none.symm.trans next_eq
  · cases stack <;> rfl

/-- A node whose operands the stack settles is left as the recursion leaves it. -/
theorem settleStack_eq (entry : Entered) (each : ∀ operand ∈ entry.pending, Settling source operand)
    (stack : List Entered) :
    settleStack source entry stack =
      settleAbove source ((entry.finish source).leave source) stack := by
  induction pending_eq : entry.pending generalizing entry with
  | nil =>
      have none : entry.next? = none := by rw [Entered.next?, pending_eq]
      rw [settleStack_of_next?_eq_none none, Entered.finish_of_next?_eq_none none]
  | cons operand pending ih =>
      have next_eq : entry.next? = some (operand,
          .ofOperand entry.settled.isEmpty pending.isEmpty, { entry with pending := pending }) := by
        rw [Entered.next?, pending_eq]
      rw [pending_eq, List.forall_mem_cons] at each
      rw [settleStack_of_next? next_eq, each.1, settleAbove, ih _ each.2 rfl,
        Entered.finish_adopt next_eq]

theorem settling (node : Node) : Settling source node := by
  induction node using induction with
  | step node ih =>
      intro owns stack
      rw [settleStack_eq _ ih]
      cases node with
      | void | nullary | leaf => rfl
      | group form tag wide operands place =>
          cases operands with
          | nil => rfl
          | cons =>
            simp [Entered.start, Entered.finish, Entered.leave, Entered.offered, withChildren,
              children, settleRec]

/-- The pass with a stack settles whitespace as the recursion does. -/
theorem settle_eq_settleRec (node : Node) (owns : Ownership) :
    node.settle source owns = settleRec source node owns := by
  rw [settle, settling, settleAbove]

/-! ## Trees whose whitespace is settled -/

/-- A tree covers a source, and the whitespace that a node owns stands at its
edges, around its text or its operands. -/
inductive Faithful (lexicon : Lexicon) (source : Source) : Node → Prop
  | void {place : Place} {offset : Nat} (frames : Frames lexicon source place offset offset) :
      Faithful lexicon source (.void place)
  | nullary {text : String} {place : Place} (fills : Fills lexicon source place text) :
      Faithful lexicon source (.nullary text place)
  | leaf {text : String} {place : Place} (fills : Fills lexicon source place text) :
      Faithful lexicon source (.leaf text place)
  | group {form : Form} {tag : Tag} {wide : Bool} {children : List Node} {place : Place}
      {start stop : Nat} (frames : Frames lexicon source place start stop)
      (joined : Joined source start children (tag.joints form (children.length - 1)) stop)
      (within : ∀ child ∈ children, Faithful lexicon source child) :
      Faithful lexicon source (.group form tag wide children place)

/-- What a left edge keeps stands in front of what it framed, and what it hands on
in front of both. -/
theorem Margin.split_left {start stop : Nat} {text : String}
    (margin : Margin lexicon source start text stop) (owned : Bool) :
    let handed := if owned then "" else text
    Margin lexicon source start handed (start + handed.utf8ByteSize) ∧
      Margin lexicon source (start + handed.utf8ByteSize) (if owned then text else "") stop := by
  cases owned with
  | true => exact ⟨margin.at_start, margin⟩
  | false =>
      simp only [Bool.false_eq_true, if_false]
      rw [← margin.stop_eq]
      exact ⟨margin, margin.at_stop⟩

/-- What a right edge keeps stands behind what it framed, and what it hands on
behind both. -/
theorem Margin.split_right {start stop : Nat} {text : String}
    (margin : Margin lexicon source start text stop) (owned : Bool) :
    let handed := if owned then "" else text
    Margin lexicon source start (if owned then text else "") (stop - handed.utf8ByteSize) ∧
      Margin lexicon source (stop - handed.utf8ByteSize) handed stop := by
  cases owned with
  | true => exact ⟨margin, margin.at_stop⟩
  | false =>
      simp only [Bool.false_eq_true, if_false]
      rw [margin.stop_eq, Nat.add_sub_cancel, ← margin.stop_eq]
      exact ⟨margin.at_start, margin⟩

/-- What the edges of a node hand on stands between what the node covered and what
it covers then.  An edge that owns whitespace hands on none. -/
structure HandsOn (lexicon : Lexicon) (source : Source) (owns : Ownership) (span : Span)
    (settled : Settled) : Prop where
  left : Margin lexicon source span.start settled.left settled.node.span.start
  right : Margin lexicon source settled.node.span.stop settled.right span.stop
  left_eq : owns.left = true → settled.left = ""
  right_eq : owns.right = true → settled.right = ""

/-- Whitespace around a range stands around it still when the edges have kept what
they own, and what they hand on stands around what is left. -/
theorem settleNode_handsOn (owns : Ownership) {node : Node} {left right : String}
    {start stop : Nat} (frames : Frames lexicon source ⟨node.span, left, right⟩ start stop) :
    Frames lexicon source (owns.settleNode node left right).node.place start stop ∧
      HandsOn lexicon source owns node.span (owns.settleNode node left right) := by
  obtain ⟨leftMargin, rightMargin, le⟩ := frames
  obtain ⟨leftHanded, leftKept⟩ := leftMargin.split_left owns.left
  obtain ⟨rightKept, rightHanded⟩ := rightMargin.split_right owns.right
  have place_eq : (owns.settleNode node left right).node.place =
      owns.settle left right node.place := withPlace_place _ node
  have start_eq : (owns.settleNode node left right).node.span.start =
      node.span.start + (owns.handedOn left right).1.utf8ByteSize := by
    rw [span, place_eq]
    rfl
  have stop_eq : (owns.settleNode node left right).node.span.stop =
      node.span.stop - (owns.handedOn left right).2.utf8ByteSize := by
    rw [span, place_eq]
    exact Nat.max_eq_right (Nat.le_trans leftKept.le (Nat.le_trans le rightKept.le))
  constructor
  · constructor
    · rw [← span, start_eq, place_eq]
      exact leftKept
    · rw [← span, stop_eq, place_eq]
      exact rightKept
    · exact le
  · constructor
    · rw [start_eq]
      exact leftHanded
    · rw [stop_eq]
      exact rightHanded
    · intro owned
      exact if_pos owned
    · intro owned
      exact if_pos owned

/-- Whatever edges a node owns, it covers the source still when its whitespace is
settled. -/
def Settles (lexicon : Lexicon) (source : Source) (node : Node) : Prop :=
  ∀ owns, HandsOn lexicon source owns node.span (settleRec source node owns) ∧
    Faithful lexicon source (settleRec source node owns).node

/-- Operands lie one behind the other still when their whitespace is settled.  Only
the first one and the last one hand on. -/
theorem settleOperands_joined {start stop : Nat} {operands : List Node} {joints : List String}
    (joined : Joined source start operands joints stop)
    (each : ∀ operand ∈ operands, Settles lexicon source operand) (isFirst : Bool) :
    let settled := settleOperands source isFirst operands
    ∃ inner outer, Margin lexicon source start settled.2.1 inner ∧
      Margin lexicon source outer settled.2.2 stop ∧
      Joined source inner settled.1 joints outer ∧
      (∀ operand ∈ settled.1, Faithful lexicon source operand) ∧
      (isFirst = false → settled.2.1 = "") := by
  induction joined generalizing isFirst with
  | last operand =>
      rw [List.forall_mem_singleton] at each
      obtain ⟨⟨left, right, left_eq, _⟩, faithful⟩ := each (.ofOperand isFirst true)
      simp only [settleOperands, List.isEmpty_nil, if_true]
      refine ⟨_, _, left, right, .last _, ?_, ?_⟩
      · rw [List.forall_mem_singleton]
        exact faithful
      · rintro rfl
        exact left_eq rfl
  | @cons operand operands joint joints stop holds rest ih =>
      rw [List.forall_mem_cons] at each
      have more : operands.isEmpty = false := by
        rw [List.isEmpty_eq_false_iff]
        rintro rfl
        exact absurd rest.length_eq (Nat.succ_ne_zero _).symm
      obtain ⟨⟨left, right, left_eq, right_eq⟩, faithful⟩ := each.1 (.ofOperand isFirst false)
      obtain ⟨inner, outer, leftRest, rightRest, joinedRest, within, none⟩ := ih each.2 false
      rw [none rfl] at leftRest
      rw [right_eq rfl] at right
      simp only [settleOperands, more, Bool.false_eq_true, if_false]
      refine ⟨_, outer, left, rightRest, ?_, ?_, ?_⟩
      · rw [← leftRest.eq_of_empty, ← right.eq_of_empty] at joinedRest
        rw [← right.eq_of_empty] at holds
        exact .cons holds joinedRest
      · rw [List.forall_mem_cons]
        exact ⟨faithful, within⟩
      · rintro rfl
        exact left_eq rfl

theorem settleRec_of_children_nil {node : Node} (owns : Ownership) (none : node.children = []) :
    settleRec source node owns =
      owns.settleNode node (node.offered source).1 (node.offered source).2 := by
  cases node with
  | void | nullary | leaf => simp [settleRec]
  | group form tag wide operands place =>
      obtain rfl : operands = [] := none
      simp [settleRec, settleOperands, offered]

/-- A tree that covers a source does so still when its whitespace is settled. -/
theorem settleRec_settles {node : Node} (laid : Laid lexicon source node) :
    Settles lexicon source node := by
  intro owns
  induction laid generalizing owns with
  | @void place gap blank covers =>
      obtain ⟨frames, handsOn⟩ := @settleNode_handsOn lexicon source owns (.void place) _ _ _ _
        (frames_of_blank blank covers)
      rw [settleRec_of_children_nil owns rfl]
      exact ⟨handsOn, .void frames⟩
  | @nullary text place fills =>
      obtain ⟨start, offer, holds⟩ := fills
      obtain ⟨frames, handsOn⟩ :=
        @settleNode_handsOn lexicon source owns (.nullary text place) _ _ _ _ offer
      rw [settleRec_of_children_nil owns rfl]
      exact ⟨handsOn, .nullary ⟨start, frames, holds⟩⟩
  | @leaf text place fills =>
      obtain ⟨start, offer, holds⟩ := fills
      obtain ⟨frames, handsOn⟩ :=
        @settleNode_handsOn lexicon source owns (.leaf text place) _ _ _ _ offer
      rw [settleRec_of_children_nil owns rfl]
      exact ⟨handsOn, .leaf ⟨start, frames, holds⟩⟩
  | @group form tag wide operands place joined within ih =>
      obtain ⟨inner, outer, left, right, settledJoined, faithful, _⟩ :=
        settleOperands_joined joined ih true
      have offer : Frames lexicon source
          ⟨place.span, (settleOperands source true operands).2.1,
            (settleOperands source true operands).2.2⟩ inner outer :=
        ⟨left, right, settledJoined.le⟩
      obtain ⟨frames, handsOn⟩ := @settleNode_handsOn lexicon source owns
        (.group form tag wide (settleOperands source true operands).1 place) _ _ _ _ offer
      rw [settleRec]
      refine ⟨handsOn, .group frames ?_ faithful⟩
      rw [settledJoined.length_eq, ← joined.length_eq]
      exact settledJoined

end Node

end OperatorMarkup
