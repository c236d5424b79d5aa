/-!
# Faces of operators

An operator has a face toward each of its operands.  A face says how tightly the
operator binds there, which side wins against an equal one, and which faces it
joins with into one group.
-/

namespace OperatorMarkup

/-- How tightly a face binds: first by band, then by rank. -/
structure Priority where
  /-- The band. -/
  band : Nat
  /-- The rank within the band. -/
  rank : Nat
  deriving DecidableEq, Repr

namespace Priority

/-- One priority binds looser than another. -/
def lt (first second : Priority) : Prop :=
  first.band < second.band ∨ first.band = second.band ∧ first.rank < second.rank

instance : LT Priority :=
  ⟨lt⟩

instance (first second : Priority) : Decidable (first < second) :=
  inferInstanceAs (Decidable (_ ∨ _))

/-- The inner faces of brackets. -/
def delimiter : Priority := ⟨0, 0⟩

/-- The inner faces of an indented part. -/
def indent : Priority := ⟨1, 0⟩

/-- Operators that have a line to themselves, between lines. -/
def wideLine : Priority := ⟨10, 0⟩

/-- Line ends with a blank line. -/
def blankLine : Priority := ⟨20, 0⟩

/-- Operators that have a line to themselves, before or behind others. -/
def lineEdge : Priority := ⟨21, 0⟩

/-- Line ends. -/
def line : Priority := ⟨22, 0⟩

/-- The outer face of an indent, so that what stands before it on the line
becomes its head. -/
def indentHead : Priority := ⟨50, 0⟩

/-- Operators with space around them. -/
def spacedOperator : Priority := ⟨110, 0⟩

/-- Operands side by side with space between them. -/
def spacedJuxtaposition : Priority := ⟨120, 0⟩

/-- Operators without space around them. -/
def operator : Priority := ⟨310, 0⟩

/-- Operands side by side without space between them. -/
def juxtaposition : Priority := ⟨320, 0⟩

/-- The outer faces of operators that take the void operand beside them. -/
def immediate : Priority := ⟨1000, 0⟩

/-- A priority that is looser the wider a marker is. -/
def byWidth (priority : Priority) (width : Nat) : Priority :=
  ⟨priority.band, 1000 - width⟩

/-- The inner faces of markers on one line, looser the longer they are. -/
def marker (length : Nat) : Priority :=
  ⟨max (99 - length) 91, 0⟩

/-- The text form of a priority. -/
def display (priority : Priority) : String :=
  toString priority.band ++ "." ++ toString priority.rank

theorem lt_def (first second : Priority) :
    first < second ↔
      first.band < second.band ∨ first.band = second.band ∧ first.rank < second.rank :=
  Iff.rfl

theorem lt_irrefl (priority : Priority) : ¬ priority < priority := by
  simp [lt_def]

theorem lt_asymm {first second : Priority} (looser : first < second) : ¬ second < first := by
  rw [lt_def] at looser ⊢
  omega

theorem lt_trichotomy (first second : Priority) :
    first < second ∨ first = second ∨ second < first := by
  cases first
  cases second
  simp only [lt_def, Priority.mk.injEq]
  omega

end Priority

/-- Which side wins where two faces bind equally. -/
inductive Tie where
  /-- The group on the left ends. -/
  | left
  /-- A group on the right starts. -/
  | right
  /-- Neither does. -/
  | neither
  deriving DecidableEq, Repr

/-- Which faces a face joins with. -/
inductive Merge where
  /-- None. -/
  | never
  /-- A face of the same text and priority, for chains of one operator. -/
  | same
  /-- The face of a closing delimiter. -/
  | opens (closer : String) (required : Bool)
  /-- The face of an opening delimiter. -/
  | closes (opener : String) (required : Bool)
  deriving DecidableEq, Repr

/-- Whether a delimiter needs its partner. -/
def Merge.isRequired : Merge → Bool
  | opens _ required | closes _ required => required
  | never | same => false

/-- One side of an operator. -/
structure Face where
  /-- The text that other faces know it by. -/
  text : String
  /-- How tightly it binds. -/
  priority : Priority
  /-- Which side wins against an equal priority. -/
  tie : Tie
  /-- Which faces it joins with. -/
  merge : Merge
  deriving DecidableEq, Repr

namespace Face

/-- The outer face of an operator that takes the void operand beside it. -/
def immediate (text : String) : Face :=
  ⟨text, .immediate, .left, .never⟩

/-- Whether a face to the right joins with a face to the left. -/
def accepts (face other : Face) : Bool :=
  match face.merge, other.merge with
  | .same, .same => face.text == other.text && face.priority == other.priority
  | .opens closer _, .closes opener _ => closer == other.text && opener == face.text
  | _, _ => false

end Face

end OperatorMarkup
