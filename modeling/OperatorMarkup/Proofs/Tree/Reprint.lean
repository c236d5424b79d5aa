import OperatorMarkup.Proofs.Tree.Whitespace

/-!
# Printing a tree back

The text of a node is the whitespace that it owns around its body, and the body of
a group is its operands with the texts that its tag names between them.  A tree
that covers a source prints that source back without looking at it.
-/

namespace OperatorMarkup

namespace Node

/-- Texts one behind the other, with others between them. -/
def weave : List String → List String → String
  | text :: texts, joint :: joints => text ++ joint ++ weave texts joints
  | texts, _ => String.join texts

/-- What a node has between the whitespace that it owns on either edge. -/
def body (source : Source) : Node → String
  | void _ => ""
  | nullary text _ | leaf text _ => text
  | group form tag _ children _ =>
      weave (children.map (sourceText source)) (tag.joints form (children.length - 1))

mutual

/-- The text of a tree from its tags, its own texts and the whitespace it owns. -/
def reprint : Node → String
  | void place => place.left ++ place.right
  | nullary text place | leaf text place => place.left ++ text ++ place.right
  | group form tag _ children place =>
      place.left ++ weave (reprintAll children) (tag.joints form (children.length - 1)) ++
        place.right

/-- The texts of some trees. -/
def reprintAll : List Node → List String
  | [] => []
  | child :: rest => reprint child :: reprintAll rest

end

/-- The operands of a group lie one behind the other, from the whitespace that it
owns on its left edge to that on its right edge, with the texts that its tag names
between them. -/
def Tiled (source : Source) : Node → Prop
  | group form tag _ children place =>
      Joined source (place.span.start + place.left.utf8ByteSize) children
        (tag.joints form (children.length - 1)) (place.span.stop - place.right.utf8ByteSize)
  | _ => True

/-- A node is a tree or lies somewhere in it. -/
inductive OccursIn : Node → Node → Prop
  | root (node : Node) : OccursIn node node
  | child {child node root : Node} (occurs : OccursIn node root) (member : child ∈ node.children) :
      OccursIn child root

/-- A node covers its whitespace and its body, whose operands tile it. -/
structure RoundTrips (lexicon : Lexicon) (source : Source) (node : Node) : Prop where
  sourceText_eq : node.sourceText source =
    node.place.left ++ node.body source ++ node.place.right
  covers : source.Covers node.span (node.sourceText source)
  left_blank : lexicon.Blank node.place.left
  right_blank : lexicon.Blank node.place.right
  tiled : node.Tiled source

variable {lexicon : Lexicon} {source : Source} {start stop : Nat} {node : Node}
  {children : List Node} {joints : List String}

/-- What lies in a tree is the tree, or lies in one of its operands. -/
theorem OccursIn.root_or_child {node root : Node} (occurs : node.OccursIn root) :
    node = root ∨ ∃ child ∈ root.children, node.OccursIn child := by
  induction occurs with
  | root node => exact .inl rfl
  | @child child parent root _ member ih =>
      rcases ih with rfl | ⟨operand, operandMem, occurs⟩
      · exact .inr ⟨child, member, .root child⟩
      · exact .inr ⟨operand, operandMem, .child occurs member⟩

theorem reprintAll_eq_map (nodes : List Node) : reprintAll nodes = nodes.map reprint := by
  induction nodes with
  | nil => rfl
  | cons node rest ih => rw [reprintAll, ih, List.map_cons]

/-- The texts of nodes that lie one behind the other stand there as one. -/
theorem Joined.weave (joined : Joined source start children joints stop)
    {textOf : Node → String}
    (covers : ∀ child ∈ children, source.Covers child.span (textOf child)) :
    source.Holds start (weave (children.map textOf) joints) ∧
      stop = start + (weave (children.map textOf) joints).utf8ByteSize := by
  induction joined with
  | last child =>
      rw [List.forall_mem_singleton] at covers
      have single : Node.weave ([child].map textOf) [] = textOf child := by
        simp [Node.weave, String.join]
      rw [single]
      exact ⟨covers.holds, covers.stop_eq⟩
  | @cons child children joint joints stop holds rest ih =>
      rw [List.forall_mem_cons] at covers
      obtain ⟨behind, stop_eq⟩ := ih covers.2
      rw [List.map_cons, Node.weave]
      rw [covers.1.stop_eq] at holds behind stop_eq
      constructor
      · apply Source.Holds.append (covers.1.holds.append holds)
        rw [String.utf8ByteSize_append, ← Nat.add_assoc]
        exact behind
      · rw [stop_eq, String.utf8ByteSize_append, String.utf8ByteSize_append]
        simp only [Nat.add_assoc]

/-- What stands between the whitespace of a place fills it together with that. -/
theorem Frames.covers {place : Place} {text : String}
    (frames : Frames lexicon source place start stop) (holds : source.Holds start text)
    (stop_eq : stop = start + text.utf8ByteSize) :
    source.Covers place.span (place.left ++ text ++ place.right) := by
  obtain ⟨left, right, _⟩ := frames
  rw [left.stop_eq] at holds stop_eq
  constructor
  · apply Source.Holds.append (left.holds.append holds)
    rw [String.utf8ByteSize_append, ← Nat.add_assoc, ← stop_eq]
    exact right.holds
  · rw [right.stop_eq, stop_eq, String.utf8ByteSize_append, String.utf8ByteSize_append]
    simp only [Nat.add_assoc]

/-- A tree that covers a source prints back what it covers. -/
theorem Faithful.covers_reprint (faithful : Faithful lexicon source node) :
    source.Covers node.span node.reprint := by
  induction faithful with
  | void frames =>
      have covers := frames.covers frames.left.at_stop.holds rfl
      rw [String.append_empty] at covers
      exact covers
  | nullary fills =>
      obtain ⟨start, frames, holds⟩ := fills
      rw [reprint]
      exact frames.covers holds rfl
  | leaf fills =>
      obtain ⟨start, frames, holds⟩ := fills
      rw [reprint]
      exact frames.covers holds rfl
  | group frames joined within ih =>
      rw [reprint, reprintAll_eq_map]
      obtain ⟨holds, stop_eq⟩ := joined.weave ih
      exact frames.covers holds stop_eq

theorem Faithful.sourceText_eq_reprint (faithful : Faithful lexicon source node) :
    node.sourceText source = node.reprint :=
  faithful.covers_reprint.slice_eq

theorem Faithful.reprint_eq (faithful : Faithful lexicon source node) :
    node.reprint = node.place.left ++ node.body source ++ node.place.right := by
  cases faithful with
  | void frames =>
      rw [body, String.append_empty]
      rfl
  | nullary | leaf => rfl
  | @group form tag wide children place _ _ frames joined within =>
      have texts_eq : children.map reprint = children.map (sourceText source) :=
        List.map_congr_left fun child member => (within child member).sourceText_eq_reprint.symm
      rw [reprint, reprintAll_eq_map, texts_eq]
      rfl

/-- Each node of a tree that covers a source has the text of its place. -/
theorem Faithful.roundTrips (faithful : Faithful lexicon source node) :
    node.RoundTrips lexicon source := by
  have text_eq := faithful.sourceText_eq_reprint
  have frames : ∃ start stop, Frames lexicon source node.place start stop := by
    cases faithful with
    | void frames | group frames => exact ⟨_, _, frames⟩
    | nullary fills | leaf fills =>
        obtain ⟨start, frames, _⟩ := fills
        exact ⟨_, _, frames⟩
  obtain ⟨start, stop, left, right, _⟩ := frames
  constructor
  · rw [text_eq, faithful.reprint_eq]
  · rw [text_eq]
    exact faithful.covers_reprint
  · exact left.blank
  · exact right.blank
  · cases faithful with
    | void | nullary | leaf => exact trivial
    | group frames joined =>
        rw [Tiled, ← frames.left.stop_eq, frames.right.stop_eq, Nat.add_sub_cancel]
        exact joined

theorem Faithful.of_occursIn {root : Node} (faithful : Faithful lexicon source root)
    (occurs : node.OccursIn root) : Faithful lexicon source node := by
  induction occurs with
  | root => exact faithful
  | @child child parent root _ member ih =>
      cases ih faithful with
      | void | nullary | leaf => contradiction
      | group _ _ within => exact within child member

end Node

end OperatorMarkup
