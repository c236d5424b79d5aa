import OperatorMarkup.Grouping

/-!
# Grammars given by tables

A table grammar groups names.  Its tables say how names bind and which of its
answers fail; a log keeps every question that grouping asks, in order, the last
one being the one that failed.
-/

namespace OperatorMarkup

namespace Grouping

/-- A question asked of a grammar of names. -/
inductive Query where
  /-- How two operators relate. -/
  | order (left right : String)
  /-- The node of an operand. -/
  | leaf (operand : String)
  /-- The node of a group. -/
  | node (operators operands : List String)
  /-- Whether an operator may start a group. -/
  | mayStart (op : String)
  /-- Whether a group may be open at the end behind an operator. -/
  | mayEnd (op : String)
  deriving DecidableEq, Repr

/-- The tables of a grammar of names. -/
structure Table where
  /-- The priorities of an operator on its left and on its right. -/
  priority : List (String × Int × Int) := []
  /-- The pairs of operators that belong to the same group. -/
  merge : List (String × String) := []
  /-- The pairs of operators that do not stand side by side. -/
  clash : List (String × String) := []
  /-- The operands without a node. -/
  noLeaf : List String := []
  /-- The operators that no group starts with. -/
  noStart : List String := []
  /-- The operators that no group is open behind at the end. -/
  noEnd : List String := []
  /-- The operators whose groups have no node. -/
  noNode : List String := []
  /-- Groups may start with any operator and be open at the end, and neither is
  asked. -/
  lenient : Bool := false
  deriving DecidableEq, Repr

/-- Answers that may fail, with a log of the questions, latest first. -/
abbrev Logged := ExceptT Error (StateM (List Query))

namespace Table

/-- The priority of an operator that the tables leave out. -/
def defaultPriority : Int × Int :=
  (50, 50)

/-- The priorities of an operator. -/
def priorityOf (table : Table) (op : String) : Int × Int :=
  (table.priority.lookup op).getD defaultPriority

/-- Put a question into the log. -/
def ask (query : Query) : Logged Unit :=
  modify (query :: ·)

/-- Fail with a text where a name is listed. -/
def forbid (names : List String) (text name : String) : Logged Unit :=
  if names.contains name then throw (.internal (.reported (text ++ " " ++ name)) none)
  else pure ()

/-- How two operators relate. -/
def order (table : Table) (left right : String) : Logged Decision := do
  ask (.order left right)
  if table.clash.contains (left, right) then
    throw (.internal (.reported ("clash " ++ left ++ " " ++ right)) none)
  else if table.merge.contains (left, right) then pure .aggregate
  else if (table.priorityOf left).2 ≥ (table.priorityOf right).1 then pure .left
  else pure .right

/-- The node of an operand is its name. -/
def leaf (table : Table) (operand : String) : Logged String := do
  ask (.leaf operand)
  forbid table.noLeaf "no_leaf" operand
  pure operand

/-- The node of a group lists its operators and its operands. -/
def node (table : Table) (operators operands : List String) : Logged String := do
  ask (.node operators operands)
  match operators with
  | op :: _ => forbid table.noNode "no_finalize" op
  | [] => pure ()
  pure ("(" ++ String.join operators ++ " " ++ " ".intercalate operands ++ ")")

/-- Whether an operator may start a group. -/
def mayStart (table : Table) (op : String) : Logged Unit :=
  if table.lenient then pure ()
  else do
    ask (.mayStart op)
    forbid table.noStart "no_shift" op

/-- Whether a group may be open at the end behind an operator. -/
def mayEnd (table : Table) (op : String) : Logged Unit :=
  if table.lenient then pure ()
  else do
    ask (.mayEnd op)
    forbid table.noEnd "no_end" op

/-- The grammar of the tables. -/
def grammar (table : Table) : Grammar Logged String String String where
  order := table.order
  leaf := table.leaf
  node := table.node
  mayStart := table.mayStart
  mayEnd := table.mayEnd

/-- An element as an answer that asks nothing. -/
def given : Except Error (Element String String) → Logged (Element String String)
  | .ok element => pure element
  | .error error => throw error

/-- The node of a sequence of names, and the questions asked on the way, in
order. -/
def group (table : Table) (elements : List (Except Error (Element String String))) :
    Except Error String × List Query :=
  let answer := (table.grammar.group (elements.map given)).run.run []
  (answer.1, answer.2.reverse)

end Table

end Grouping

end OperatorMarkup
