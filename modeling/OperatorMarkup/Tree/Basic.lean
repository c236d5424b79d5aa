import OperatorMarkup.Location

/-!
# Trees

A tree has words, operators that stand alone, operands that the text leaves out,
and groups of operands under a tag.  Every node keeps the part of the source
that it covers and the whitespace that it owns on either edge.
-/

namespace OperatorMarkup

/-- Where a node lies, with the whitespace that it owns there. -/
structure Place where
  /-- The part of the source, owned whitespace included. -/
  span : Span
  /-- The whitespace owned on the left edge. -/
  left : String := ""
  /-- The whitespace owned on the right edge. -/
  right : String := ""
  deriving DecidableEq, Repr

/-- The operators of a group. -/
inductive Tag where
  /-- One operator, once or several times in a row. -/
  | single (text : String)
  /-- An opening and a closing delimiter. -/
  | pair (opener closer : String)
  deriving DecidableEq, Repr

namespace Tag

/-- The tag of operands side by side. -/
def empty : Tag :=
  single ""

/-- The tag of lines. -/
def paragraph : Tag :=
  single "P"

/-- The tag of lines with a blank line among them. -/
def blank : Tag :=
  single "B"

/-- The tag of an indented part. -/
def indented : Tag :=
  single "I"

/-- The text form of a tag, which is an underscore where it has no text. -/
def display : Tag → String
  | single text => if text = "" then "_" else text
  | pair opener closer => opener ++ closer

end Tag

/-- Whether a group lies within lines or is made of lines. -/
inductive Form where
  /-- Within lines. -/
  | inline
  /-- Made of lines. -/
  | block
  deriving DecidableEq, Repr

namespace Form

/-- The bracket in front of a group of this form. -/
def opening : Form → String
  | inline => "("
  | block => "\x7b"

/-- The bracket behind a group of this form. -/
def closing : Form → String
  | inline => ")"
  | block => "\x7d"

end Form

/-- A tree over a source. -/
inductive Node where
  /-- An operand that the text leaves out. -/
  | void (place : Place)
  /-- An operator that stands alone. -/
  | nullary (text : String) (place : Place)
  /-- A word. -/
  | leaf (text : String) (place : Place)
  /-- Operands under a tag.  A group is wide where an operator of it is spaced,
  or where it is made of lines. -/
  | group (form : Form) (tag : Tag) (wide : Bool) (children : List Node) (place : Place)
  deriving BEq, Repr

instance : Inhabited Node :=
  ⟨.void ⟨default, "", ""⟩⟩

namespace Node

/-- Where a node lies. -/
def place : Node → Place
  | void place | nullary _ place | leaf _ place | group _ _ _ _ place => place

/-- The same node at another place. -/
def withPlace (place : Place) : Node → Node
  | void _ => void place
  | nullary text _ => nullary text place
  | leaf text _ => leaf text place
  | group form tag wide children _ => group form tag wide children place

/-- The part of the source that a node covers. -/
def span (node : Node) : Span :=
  node.place.span

/-- The operands of a group, and no nodes for others. -/
def children : Node → List Node
  | group _ _ _ children _ => children
  | _ => []

/-- The tag of a group. -/
def tag? : Node → Option Tag
  | group _ tag _ _ _ => some tag
  | _ => none

/-- Whether an operand is left out. -/
def isVoid : Node → Bool
  | void _ => true
  | _ => false

mutual

/-- The number of nodes of a tree. -/
def size : Node → Nat
  | group _ _ _ children _ => 1 + sizeAll children
  | _ => 1

/-- The number of nodes of some trees. -/
def sizeAll : List Node → Nat
  | [] => 0
  | child :: rest => size child + sizeAll rest

end

/-! ## Texts of a node -/

/-- The part of the source that a node covers, owned whitespace included. -/
def sourceText (source : Source) (node : Node) : String :=
  source.slice node.span

/-- The part of the source that a node covers, without owned whitespace. -/
def rawText (source : Source) (node : Node) : String :=
  let text := node.sourceText source
  let size := text.utf8ByteSize
  let start := min node.place.left.utf8ByteSize size
  sliceBytes text start (max (size - node.place.right.utf8ByteSize) start)

/-! ## Places and sizes -/

@[simp]
theorem withPlace_place (place : Place) (node : Node) :
    (node.withPlace place).place = place := by
  cases node <;> rfl

@[simp]
theorem withPlace_children (place : Place) (node : Node) :
    (node.withPlace place).children = node.children := by
  cases node <;> rfl

@[simp]
theorem sizeAll_nil : sizeAll [] = 0 :=
  rfl

@[simp]
theorem sizeAll_cons (child : Node) (rest : List Node) :
    sizeAll (child :: rest) = child.size + sizeAll rest :=
  rfl

theorem sizeAll_append (first second : List Node) :
    sizeAll (first ++ second) = sizeAll first + sizeAll second := by
  induction first with
  | nil => simp
  | cons child rest ih => simp [ih, Nat.add_assoc]

theorem size_eq (node : Node) : node.size = 1 + sizeAll node.children := by
  cases node <;> rfl

end Node

end OperatorMarkup
