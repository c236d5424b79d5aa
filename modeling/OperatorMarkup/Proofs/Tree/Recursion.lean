import OperatorMarkup.Proofs.Tree.Covering
import OperatorMarkup.Proofs.Tree.Reprint

/-!
# Whitespace is settled recursively

Settling a node settles its operands, each with the edges that it owns by its position, and
then offers the edges of the node what the first operand and the last one hand on.  The right
edge of a node that was built is never offered more than the node covers, so the span of a node
is cut short and never turned around.
-/

namespace OperatorMarkup

/-- The whitespace around the text of a token can be cut from what the token covers. -/
structure Token.IsCut (source : Source) (token : Token) : Prop where
  parts : ∃ front middle behind,
    source.Covers token.span (front ++ middle ++ behind) ∧
      front.utf8ByteSize = min token.before.utf8ByteSize token.span.length ∧
      (front ++ middle).utf8ByteSize =
        min (front.utf8ByteSize + token.text.utf8ByteSize) token.span.length

namespace Node

variable {source : Source} {node inner last : Node} {children operands : List Node}
  {form : Form} {tag : Tag} {wide : Bool} {place : Place} {owns : Ownership}

/-! ## The recursion -/

/-- The operands of a node, each settled with what it owns by its position: all but the first
one own their left edge, and all but the last one their right edge. -/
def settledOperands (source : Source) (node : Node) : List Settled :=
  node.children.mapIdx fun i operand =>
    operand.settle source { left := i != 0, right := i + 1 != node.children.length }

/-- What the edges of a node are offered: what its first operand and its last one hand on, the
whitespace around a text, or all that a void covers. -/
def edges (source : Source) (node : Node) : String × String :=
  match node with
  | void place => (source.slice place.span, "")
  | nullary _ place | leaf _ place => (place.left, place.right)
  | group _ _ _ _ _ =>
      (((node.settledOperands source).head?.map Settled.left).getD "",
        ((node.settledOperands source).getLast?.map Settled.right).getD "")

theorem settleOperands_eq (isFirst : Bool) (operands : List Node) :
    settleOperands source isFirst operands =
      let settled := operands.mapIdx fun i operand =>
        settleRec source operand (.ofOperand (isFirst && i == 0) (i + 1 == operands.length))
      (settled.map Settled.node, (settled.head?.map Settled.left).getD "",
        (settled.getLast?.map Settled.right).getD "") := by
  induction operands generalizing isFirst with
  | nil => rfl
  | cons operand operands ih =>
      rw [settleOperands, ih]
      cases operands <;> simp [List.mapIdx_cons, List.getLast?_cons]

/-- A node is settled as its operands are, with what they hand on. -/
theorem settle_eq (node : Node) (owns : Ownership) :
    node.settle source owns =
      owns.settleNode (node.withChildren ((node.settledOperands source).map Settled.node))
        (node.edges source).1 (node.edges source).2 := by
  rw [settle_eq_settleRec]
  cases node with
  | void | nullary | leaf => simp [settleRec, withChildren, edges, offered]
  | group form tag wide operands place =>
      simp [settleRec, settleOperands_eq, withChildren, edges, settledOperands, children,
        settle_eq_settleRec, Ownership.ofOperand, bne]

/-- A settled node is the node over its settled operands.  An edge that the node owns keeps what
it is offered; another keeps nothing, hands that on, and leaves it out of the span. -/
structure Keeps (source : Source) (node : Node) (owns : Ownership) (settled : Settled) : Prop where
  node_eq : settled.node =
    (node.withChildren ((node.settledOperands source).map Settled.node)).withPlace
      settled.node.place
  kept_left : settled.node.place.left = if owns.left then (node.edges source).1 else ""
  kept_right : settled.node.place.right = if owns.right then (node.edges source).2 else ""
  handed_left : settled.left = if owns.left then "" else (node.edges source).1
  handed_right : settled.right = if owns.right then "" else (node.edges source).2
  start_eq : settled.node.span.start = node.span.start + settled.left.utf8ByteSize
  stop_eq : settled.node.span.stop =
    max settled.node.span.start (node.span.stop - settled.right.utf8ByteSize)

theorem settle_keeps (node : Node) (owns : Ownership) :
    node.Keeps source owns (node.settle source owns) := by
  rw [settle_eq]
  constructor
  · rw [Ownership.settleNode, withPlace_place]
  · rw [Ownership.settleNode, withPlace_place]
    rfl
  · rw [Ownership.settleNode, withPlace_place]
    rfl
  · rfl
  · rfl
  · rw [Ownership.settleNode, span, withPlace_place]
    cases node <;> rfl
  · rw [Ownership.settleNode, span, withPlace_place]
    cases node <;> rfl

/-- The right edge of a group is offered what that of its last operand is. -/
theorem edges_right_of_last {front : List Node} (children_eq : node.children = front ++ [last]) :
    (node.edges source).2 = (last.edges source).2 := by
  cases node with
  | void | nullary | leaf => exact absurd children_eq.symm (by simp [children])
  | group form tag wide operands place =>
      obtain rfl : operands = front ++ [last] := children_eq
      rw [edges, settledOperands, children, List.mapIdx_concat, List.getLast?_concat]
      simp [settle_eq, Ownership.settleNode, Ownership.handedOn]

theorem children_settle (node : Node) (owns : Ownership) :
    (node.settle source owns).node.children =
      (node.settledOperands source).map Settled.node := by
  rw [settle_eq, Ownership.settleNode, withPlace_children]
  cases node <;> rfl

/-- The right edge of a settled node is offered none, unless it is a text that kept what it
had there. -/
theorem edges_right_settle (givesUp : node.tag? = none → owns.right = false) :
    ((node.settle source owns).node.edges source).2 = "" := by
  induction node using Node.induction generalizing owns with
  | step node ih =>
      cases node with
      | void | nullary | leaf =>
          simp [settle_eq, withChildren, Ownership.settleNode, withPlace, edges,
            Ownership.settle, givesUp rfl]
      | group form tag wide operands place =>
          have settled_eq := @children_settle source (.group form tag wide operands place) owns
          rw [settledOperands, children] at settled_eq
          rcases List.eq_nil_or_concat' operands with rfl | ⟨front, last, rfl⟩
          · rw [settle_eq]
            rfl
          · rw [List.mapIdx_concat, List.map_append] at settled_eq
            rw [edges_right_of_last settled_eq]
            apply ih last
            · simp [children]
            · simp

/-! ## Room for whitespace -/

/-- The whitespace at both edges of a text, and that at the right edge of a group, takes no more
than the node covers, all over a tree. -/
inductive HasRoom (source : Source) : Node → Prop
  | void (place : Place) : HasRoom source (.void place)
  | nullary {text : String} {place : Place}
      (fits : place.left.utf8ByteSize + place.right.utf8ByteSize ≤ place.span.length) :
      HasRoom source (.nullary text place)
  | leaf {text : String} {place : Place}
      (fits : place.left.utf8ByteSize + place.right.utf8ByteSize ≤ place.span.length) :
      HasRoom source (.leaf text place)
  | group {form : Form} {tag : Tag} {wide : Bool} {children : List Node} {place : Place}
      (fits : ((Node.group form tag wide children place).edges source).2.utf8ByteSize ≤
        place.span.length)
      (within : ∀ child ∈ children, HasRoom source child) :
      HasRoom source (.group form tag wide children place)

namespace HasRoom

/-- The right edge of a node is offered no more than the node covers. -/
theorem edges_right_le (room : HasRoom source node) :
    (node.edges source).2.utf8ByteSize ≤ node.span.length := by
  cases room with
  | void => exact Nat.zero_le _
  | nullary fits | leaf fits => exact Nat.le_trans (Nat.le_add_left _ _) fits
  | group fits => exact fits

/-- A group has room where it covers no less than its last operand. -/
theorem of_last {front : List Node} (within : ∀ child ∈ front ++ [last], HasRoom source child)
    (covers : last.span.length ≤ place.span.length) :
    HasRoom source (.group form tag wide (front ++ [last]) place) := by
  apply HasRoom.group _ within
  rw [edges_right_of_last rfl]
  exact Nat.le_trans (within last (by simp)).edges_right_le covers

theorem of_occursIn (room : HasRoom source node) (occurs : inner.OccursIn node) :
    HasRoom source inner := by
  induction occurs with
  | root => exact room
  | @child child parent root _ member ih =>
      cases ih room with
      | void | nullary | leaf => contradiction
      | group _ within => exact within child member

/-- What the edges of a text keep takes no more than is left of what it covers. -/
theorem settle_place
    (fits : place.left.utf8ByteSize + place.right.utf8ByteSize ≤ place.span.length) :
    let kept := owns.settle place.left place.right place
    kept.left.utf8ByteSize + kept.right.utf8ByteSize ≤ kept.span.length := by
  rw [Span.length] at fits
  obtain ⟨left, right⟩ := owns
  cases left <;> cases right <;>
    simp only [Ownership.settle, Ownership.handedOn, Span.length, Span.between_start,
      Span.between_stop, if_true, if_false, Bool.false_eq_true, String.utf8ByteSize_empty] <;>
    omega

/-- A tree has room for whitespace still when its whitespace is settled. -/
theorem settle (room : HasRoom source node) (owns : Ownership) :
    HasRoom source (node.settle source owns).node := by
  induction room generalizing owns with
  | void place =>
      rw [settle_eq]
      exact .void _
  | nullary fits =>
      rw [settle_eq]
      exact .nullary (settle_place fits)
  | leaf fits =>
      rw [settle_eq]
      exact .leaf (settle_place fits)
  | @group form tag wide operands place fits within ih =>
      have none := @edges_right_settle source (.group form tag wide operands place) owns nofun
      rw [settle_eq] at none ⊢
      apply HasRoom.group
      · exact Nat.le_trans (Nat.le_of_eq (congrArg String.utf8ByteSize none)) (Nat.zero_le _)
      · intro child member
        obtain ⟨settled, settledMem, rfl⟩ := List.mem_map.mp member
        obtain ⟨i, inBounds, rfl⟩ := List.mem_mapIdx.mp settledMem
        exact ih _ (List.getElem_mem inBounds) _

end HasRoom

/-! ## Built nodes -/

theorem ofToken_hasRoom {token : Token} (cut : token.kind ≠ .void → token.IsCut source) :
    HasRoom source (ofToken source token) := by
  have fits : token.kind ≠ .void →
      (tokenPlace source token).left.utf8ByteSize + (tokenPlace source token).right.utf8ByteSize ≤
        (tokenPlace source token).span.length := by
    intro written
    obtain ⟨front, middle, behind, covers, front_eq, middle_eq⟩ := cut written
    rw [tokenPlace_eq_of_cut covers front_eq middle_eq, Span.length, covers.stop_eq]
    simp only [String.utf8ByteSize_append]
    omega
  rw [ofToken]
  cases kind_eq : token.kind with
  | void => exact .void _
  | nullary => exact .nullary (fits (by simp [kind_eq]))
  | identifier | operator => exact .leaf (fits (by simp [kind_eq]))

/-- The lines of a body have room where the body has. -/
theorem HasRoom.bodyLines {body : Node} (room : HasRoom source body) :
    ∀ line ∈ bodyLines body, HasRoom source line := by
  rcases bodyLines_cases body with lines_eq | ⟨wide, lines, place, rfl, lines_eq⟩
  · rw [lines_eq, List.forall_mem_singleton]
    exact room
  · rw [lines_eq]
    cases room with
    | group _ within => exact within

/-- An indented part has room where its head, its body and its tail have. -/
theorem indentBlock_hasRoom {first : Operator} {rest : List Operator} {span : Span}
    {head body tail : Node} (headRoom : HasRoom source head) (bodyRoom : HasRoom source body)
    (tailRoom : HasRoom source tail) (covers : tail.span.length ≤ span.length) :
    HasRoom source (indentBlock (first :: rest) span head body tail) := by
  have lines : ∀ front, HasRoom source front →
      ∀ line ∈ front :: bodyLines body ++ [tail], HasRoom source line := by
    intro front frontRoom line member
    simp only [List.cons_append, List.mem_cons, List.mem_append, List.not_mem_nil,
      or_false] at member
    rcases member with rfl | within | rfl
    · exact frontRoom
    · exact bodyRoom.bodyLines line within
    · exact tailRoom
  rcases indentBlock_cases (first :: rest) span head body tail with
    line_eq | ⟨tag, wide, before, last, place, _, rfl, spliced_eq⟩
  · rw [line_eq]
    exact .of_last (lines head headRoom) covers
  · rw [spliced_eq]
    cases headRoom with
    | group _ within =>
        have lastRoom := within last (by simp)
        obtain ⟨inner, inner_eq⟩ :=
          @exists_coveredSpan? first rest (last :: bodyLines body ++ [tail])
        have tailMem : tail.span ∈ (first :: rest).map Operator.span ++
            (last :: bodyLines body ++ [tail]).map Node.span := by simp
        rw [inner_eq, Option.getD_some]
        apply HasRoom.group
        · -- The part may reach beyond the group, but the tail at its end does not.
          rw [edges_right_of_last rfl, block, edges_right_of_last rfl]
          exact Nat.le_trans tailRoom.edges_right_le covers
        · intro child member
          rcases List.mem_append.mp member with earlier | here
          · exact within child (List.mem_append_left _ earlier)
          · rw [List.mem_singleton.mp here]
            exact .of_last (lines last lastRoom) (Span.length_le_of_merge inner_eq tailMem)

/-- A group has room where its operands have, wherever in the source they lie. -/
theorem ofGroup_hasRoom {operators : List Operator}
    (within : ∀ operand ∈ operands, HasRoom source operand)
    (build_eq : ofGroup operators operands = .ok node) : HasRoom source node := by
  obtain ⟨arity, first, rest, span, rfl, span_eq, cases_eq⟩ := ofGroup_cases build_eq
  have covers : ∀ operand ∈ operands, operand.span.length ≤ span.length := by
    intro operand member
    apply Span.length_le_of_merge span_eq
    exact List.mem_append_right _ (List.mem_map_of_mem member)
  rcases cases_eq with ⟨_, head, body, tail, rfl, rfl⟩ | ⟨_, tagged_eq⟩
  · simp only [List.forall_mem_cons] at within covers
    exact indentBlock_hasRoom within.1 within.2.1 within.2.2.1 covers.2.2.1
  · obtain ⟨front, last, rfl⟩ := (List.eq_nil_or_concat' operands).resolve_left
      (List.ne_nil_of_length_pos (by rw [arity]; exact Nat.succ_pos _))
    have atLast := covers last (by simp)
    rcases ofTagged_cases tagged_eq with ⟨_, _, rfl⟩ | ⟨_, _, rfl⟩
    · exact .of_last within atLast
    · exact .of_last within atLast

/-- A node that is built from tokens and operators, whatever these are, with whitespace settled
on the way or not. -/
inductive Built (source : Source) : Node → Prop
  | token {token : Token} (cut : token.kind ≠ .void → token.IsCut source) :
      Built source (ofToken source token)
  | group {operators : List Operator} {operands : List Node} {node : Node}
      (build_eq : ofGroup operators operands = .ok node)
      (within : ∀ operand ∈ operands, Built source operand) : Built source node
  | settled {node : Node} (built : Built source node) (owns : Ownership) :
      Built source (node.settle source owns).node

theorem Built.hasRoom (built : Built source node) : HasRoom source node := by
  induction built with
  | token cut => exact ofToken_hasRoom cut
  | group build_eq _ ih => exact ofGroup_hasRoom ih build_eq
  | settled _ owns ih => exact ih.settle owns

/-- The pass with a stack settles every node as the recursion does: its operands, each with what
it owns by its position, and then its edges, offered what the first operand and the last one
hand on, which they keep where the node owns them.  What the right edge of a node in a built tree hands on is never more than the node
covers, so its span is cut short there and never underflows. -/
theorem settle_recursively (source : Source) :
    (∀ (node : Node) (owns : Ownership),
      node.settle source owns = settleRec source node owns ∧
      node.settle source owns =
        owns.settleNode (node.withChildren ((node.settledOperands source).map Settled.node))
          (node.edges source).1 (node.edges source).2 ∧
      node.Keeps source owns (node.settle source owns)) ∧
    ∀ root : Node, root.Built source → ∀ node : Node, node.OccursIn root → ∀ owns : Ownership,
      (node.settle source owns).right.utf8ByteSize ≤ node.span.length := by
  constructor
  · intro node owns
    exact ⟨settle_eq_settleRec node owns, settle_eq node owns, settle_keeps node owns⟩
  · intro root built node occurs owns
    have room := (built.hasRoom.of_occursIn occurs).edges_right_le
    rw [(settle_keeps node owns).handed_right]
    split
    · exact Nat.zero_le _
    · exact room

/-- A text with two spaces behind it. -/
def spacedPair : Source :=
  { text := "ab  " }

/-- A word that names a gap before it where the text has a letter. -/
def misnamedWord : Token where
  kind := .identifier
  lexeme := .word
  text := "b"
  before := " "
  after := "  "
  span := .between 0 4
  lineOperator := false

theorem settle_recursively_misnamedWord :
    (ofToken spacedPair misnamedWord).Built spacedPair ∧
      ((ofToken spacedPair misnamedWord).settle spacedPair ⟨false, false⟩).right.utf8ByteSize ≤
        (ofToken spacedPair misnamedWord).span.length := by
  have cut : misnamedWord.IsCut spacedPair := by
    refine ⟨"a", "b", "  ", ⟨⟨"", "", ?_, rfl⟩, rfl⟩, rfl, rfl⟩
    decide
  have built := Built.token fun _ => cut
  exact ⟨built, (settle_recursively spacedPair).2 _ built _ (.root _) ⟨false, false⟩⟩

end Node

end OperatorMarkup
