import OperatorMarkup.Proofs.Source
import OperatorMarkup.Proofs.Span
import OperatorMarkup.Proofs.Token.Placement
import OperatorMarkup.Tree.Basic

/-!
# Layout of trees

The tag of a group names the texts of its operators, which stand between its
operands.  Operands and these texts lie one behind the other, so a tree covers a
source without a gap and without an overlap.
-/

namespace OperatorMarkup

namespace Tag

/-- What stands between two operands under a tag of one operator: its text, and
nothing where the tag is that of lines. -/
def joint (form : Form) (text : String) : String :=
  if form = .block ∧ single text ∈ [paragraph, blank, indented] then "" else text

/-- What stands between the operands of a group, in order, given the number of
gaps between them. -/
def joints (form : Form) (gaps : Nat) : Tag → List String
  | single text => List.replicate gaps (joint form text)
  | pair opener closer => [opener, closer]

@[simp]
theorem joint_inline (text : String) : joint .inline text = text := by
  simp [joint]

theorem joints_of_lines (gaps : Nat) {tag : Tag} (lines : tag ∈ [paragraph, blank, indented]) :
    tag.joints .block gaps = List.replicate gaps "" := by
  cases tag with
  | single text => rw [joints, joint, if_pos ⟨rfl, lines⟩]
  | pair opener closer => simp [paragraph, blank, indented] at lines

end Tag

namespace Node

variable {lexicon : Lexicon} {source : Source} {start middle stop : Nat}
  {child last : Node} {children first second : List Node} {joint : String}
  {joints firstJoints secondJoints : List String}

/-- Nodes lie one behind the other from an offset to another, with the given texts
between them. -/
inductive Joined (source : Source) : Nat → List Node → List String → Nat → Prop
  /-- The last node has nothing behind it. -/
  | last (child : Node) : Joined source child.span.start [child] [] child.span.stop
  /-- A text stands behind a node, and more nodes behind the text. -/
  | cons {child : Node} {children : List Node} {joint : String} {joints : List String}
      {stop : Nat} (holds : source.Holds child.span.stop joint)
      (rest : Joined source (child.span.stop + joint.utf8ByteSize) children joints stop) :
      Joined source child.span.start (child :: children) (joint :: joints) stop

namespace Joined

theorem last_of_eq (start_eq : child.span.start = start) (stop_eq : child.span.stop = stop) :
    Joined source start [child] [] stop := by
  rw [← start_eq, ← stop_eq]
  exact .last child

theorem cons_of_eq (start_eq : child.span.start = start)
    (holds : source.Holds child.span.stop joint)
    (rest : Joined source (child.span.stop + joint.utf8ByteSize) children joints stop) :
    Joined source start (child :: children) (joint :: joints) stop := by
  rw [← start_eq]
  exact .cons holds rest

theorem uncons (joined : Joined source start (child :: children) (joint :: joints) stop) :
    child.span.start = start ∧ source.Holds child.span.stop joint ∧
      Joined source (child.span.stop + joint.utf8ByteSize) children joints stop := by
  cases joined with
  | cons holds rest => exact ⟨rfl, holds, rest⟩

theorem ends (joined : Joined source start [child] [] stop) :
    child.span.start = start ∧ child.span.stop = stop := by
  cases joined with
  | last => exact ⟨rfl, rfl⟩

theorem length_eq (joined : Joined source start children joints stop) :
    children.length = joints.length + 1 := by
  induction joined with
  | last => rfl
  | cons _ _ ih => rw [List.length_cons, List.length_cons, ih]

theorem le (joined : Joined source start children joints stop) : start ≤ stop := by
  induction joined with
  | last child => exact child.span.start_le_stop
  | @cons child _ _ _ _ _ _ ih =>
      exact Nat.le_trans (Nat.le_trans child.span.start_le_stop (Nat.le_add_right _ _)) ih

theorem append (joined : Joined source start first firstJoints middle)
    (holds : source.Holds middle joint)
    (next : Joined source (middle + joint.utf8ByteSize) second secondJoints stop) :
    Joined source start (first ++ second) (firstJoints ++ joint :: secondJoints) stop := by
  induction joined with
  | last child => exact .cons holds next
  | cons before _ ih => exact .cons before (ih holds next)

/-- Another node may stand in the place of the last one. -/
theorem replace_last (joined : Joined source start (children ++ [last]) joints stop)
    {other : Node} (start_eq : other.span.start = last.span.start) :
    Joined source start (children ++ [other]) joints other.span.stop ∧ stop = last.span.stop := by
  induction children generalizing start joints with
  | nil =>
      cases joined with
      | last => exact ⟨last_of_eq start_eq rfl, rfl⟩
      | cons _ rest => exact absurd rest.length_eq (Nat.succ_ne_zero _).symm
  | cons child children ih =>
      rw [List.cons_append] at joined
      generalize all_eq : children ++ [last] = all at joined
      cases joined with
      | last => simp at all_eq
      | cons holds rest =>
          subst all_eq
          obtain ⟨replaced, stop_eq⟩ := ih rest
          exact ⟨.cons holds replaced, stop_eq⟩

/-- Nodes with nothing between them tile what they cover. -/
theorem tile {gaps : Nat} (joined : Joined source start children (List.replicate gaps "") stop) :
    Span.Tile start (children.map span) stop := by
  generalize joints_eq : List.replicate gaps "" = joints at joined
  induction joined generalizing gaps with
  | last child => exact .cons (.nil _)
  | cons _ _ ih =>
      cases gaps with
      | zero => contradiction
      | succ gaps =>
          rw [List.replicate_succ, List.cons.injEq] at joints_eq
          obtain ⟨rfl, rest_eq⟩ := joints_eq
          exact .cons (ih rest_eq)

end Joined

/-! ## Whitespace around nodes -/

/-- Whitespace stands between two offsets. -/
structure Margin (lexicon : Lexicon) (source : Source) (start : Nat) (text : String)
    (stop : Nat) : Prop where
  blank : lexicon.Blank text
  holds : source.Holds start text
  stop_eq : stop = start + text.utf8ByteSize

namespace Margin

variable {text : String}

theorem le (margin : Margin lexicon source start text stop) : start ≤ stop := by
  rw [margin.stop_eq]
  exact Nat.le_add_right _ _

theorem eq_of_empty (margin : Margin lexicon source start "" stop) : start = stop :=
  margin.stop_eq.symm

theorem at_start (margin : Margin lexicon source start text stop) :
    Margin lexicon source start "" start := by
  constructor
  · exact nofun
  · have holds := margin.holds
    rw [← @String.empty_append text] at holds
    exact holds.left
  · rfl

theorem at_stop (margin : Margin lexicon source start text stop) :
    Margin lexicon source stop "" stop := by
  constructor
  · exact nofun
  · have holds := margin.holds
    rw [← @String.append_empty text] at holds
    rw [margin.stop_eq]
    exact holds.right
  · rfl

end Margin

/-- The whitespace that a place owns stands at its ends, around a range. -/
structure Frames (lexicon : Lexicon) (source : Source) (place : Place) (start stop : Nat) :
    Prop where
  left : Margin lexicon source place.span.start place.left start
  right : Margin lexicon source stop place.right place.span.stop
  le : start ≤ stop

/-- A text fills the range inside the whitespace of a place. -/
structure Fills (lexicon : Lexicon) (source : Source) (place : Place) (text : String) : Prop where
  frames : ∃ start, Frames lexicon source place start (start + text.utf8ByteSize) ∧
    source.Holds start text

/-- A text that covers a place together with its whitespace lies inside of that. -/
theorem frames_of_covers {place : Place} {text : String} (left : lexicon.Blank place.left)
    (right : lexicon.Blank place.right)
    (covers : source.Covers place.span (place.left ++ text ++ place.right)) :
    Frames lexicon source place (place.span.start + place.left.utf8ByteSize)
      (place.span.start + place.left.utf8ByteSize + text.utf8ByteSize) := by
  have holds := covers.holds
  have stop_eq := covers.stop_eq
  rw [String.utf8ByteSize_append, String.utf8ByteSize_append, ← Nat.add_assoc,
    ← Nat.add_assoc] at stop_eq
  have behind := holds.right
  rw [String.utf8ByteSize_append, ← Nat.add_assoc] at behind
  exact ⟨⟨left, holds.left.left, rfl⟩, ⟨right, behind, stop_eq⟩, Nat.le_add_right _ _⟩

theorem fills_of_covers {place : Place} {text : String} (left : lexicon.Blank place.left)
    (right : lexicon.Blank place.right)
    (covers : source.Covers place.span (place.left ++ text ++ place.right)) :
    Fills lexicon source place text :=
  ⟨_, frames_of_covers left right covers, covers.holds.left.right⟩

/-- The whitespace of a void place is all on its left. -/
theorem frames_of_blank {span : Span} {gap : String} (blank : lexicon.Blank gap)
    (covers : source.Covers span gap) :
    Frames lexicon source ⟨span, source.slice span, ""⟩ span.stop span.stop := by
  have margin : Margin lexicon source span.start (source.slice span) span.stop := by
    rw [covers.slice_eq]
    exact ⟨blank, covers.holds, covers.stop_eq⟩
  exact ⟨margin, margin.at_stop, Nat.le_refl _⟩

/-! ## Trees before whitespace is settled -/

/-- A tree covers a source: its leaves stand where their texts do, with whitespace
around them, and the operands of a group lie one behind the other. -/
inductive Laid (lexicon : Lexicon) (source : Source) : Node → Prop
  | void {place : Place} {gap : String} (blank : lexicon.Blank gap)
      (covers : source.Covers place.span gap) : Laid lexicon source (.void place)
  | nullary {text : String} {place : Place} (fills : Fills lexicon source place text) :
      Laid lexicon source (.nullary text place)
  | leaf {text : String} {place : Place} (fills : Fills lexicon source place text) :
      Laid lexicon source (.leaf text place)
  | group {form : Form} {tag : Tag} {wide : Bool} {children : List Node} {place : Place}
      (joined : Joined source place.span.start children
        (tag.joints form (children.length - 1)) place.span.stop)
      (within : ∀ child ∈ children, Laid lexicon source child) :
      Laid lexicon source (.group form tag wide children place)

/-- The operands of a laid group that lie one behind the other under a tag of
lines. -/
theorem Laid.block {tag : Tag} (lines : tag ∈ [Tag.paragraph, .blank, .indented]) {wide : Bool}
    {place : Place} {gaps : Nat}
    (joined : Joined source place.span.start children (List.replicate gaps "") place.span.stop)
    (within : ∀ child ∈ children, Laid lexicon source child) :
    Laid lexicon source (.group .block tag wide children place) := by
  apply Laid.group _ within
  have length_eq := joined.length_eq
  rw [List.length_replicate] at length_eq
  rw [length_eq, Nat.add_sub_cancel, Tag.joints_of_lines gaps lines]
  exact joined

end Node

end OperatorMarkup
