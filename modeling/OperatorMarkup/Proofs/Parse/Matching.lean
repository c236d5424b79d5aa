import OperatorMarkup.Proofs.Parse.Groups
import OperatorMarkup.Proofs.Token.Matching

/-!
# Brackets of a tree

Each group of brackets in the tree that a text groups to is of two brackets that are matched in
the text, and all matched brackets of the text have a group.
-/

namespace OperatorMarkup

open Grouping Grouping.Tree Operator

/-- The brackets of a group, and whether the group is the head of an indented part. -/
structure BracketPair where
  /-- The opening bracket. -/
  opener : Token
  /-- The closing bracket. -/
  closer : Token
  /-- Whether the group of the brackets is the head of an indented part. -/
  headed : Bool
  deriving DecidableEq, Repr

namespace BracketPair

/-- The two brackets. -/
def tokens (pair : BracketPair) : Token × Token :=
  (pair.opener, pair.closer)

/-- The same brackets as the head of an indented part. -/
def heading (pair : BracketPair) : BracketPair :=
  { pair with headed := true }

/-- The brackets of a group with the given operators. -/
def ofOperators (headed : Bool) : List Operator → List BracketPair
  | [opener, closer] =>
      if opener.token.lexeme = .opener ∧ closer.token.lexeme = .closer then
        [⟨opener.token, closer.token, headed⟩]
      else []
  | _ => []

end BracketPair

namespace Grouping.Tree

mutual

/-- The bracket pairs of a tree, of which it is given whether it is the head of an indented
part. -/
def bracketPairs (headed : Bool) : Tree Token Operator → List BracketPair
  | leaf _ => []
  | group operators operands =>
      BracketPair.ofOperators headed operators ++
        bracketPairsOf (Node.isIndentPair operators) operands

/-- The bracket pairs of some trees, of which it is given whether the first one is the head of
an indented part. -/
def bracketPairsOf (headed : Bool) : List (Tree Token Operator) → List BracketPair
  | [] => []
  | operand :: rest => bracketPairs headed operand ++ bracketPairsOf false rest

end

/-- The brackets of a tree in the order of the text. -/
def brackets (tree : Tree Token Operator) : List Token :=
  bracketTokens (operatorsOf tree.elements)

variable {lexicon : Lexicon} {source : Source} {operators : List Operator}
  {operands : List (Tree Token Operator)} {tree : Tree Token Operator}

/-! ## Groups with and without brackets -/

/-- Without brackets among its operators a group has those of its operands. -/
theorem brackets_group (plain : ∀ op ∈ operators, op.token.isBracket = false) :
    (group operators operands).brackets = operands.flatMap brackets := by
  rw [brackets, elements_group]
  induction operands generalizing operators with
  | nil =>
      rw [elementsOf, operatorsOf_map_operator, List.flatMap_nil, bracketTokens,
        List.filter_eq_nil_iff]
      intro token member
      obtain ⟨op, opMember, rfl⟩ := List.mem_map.mp member
      rw [plain op opMember]
      exact Bool.false_ne_true
  | cons operand operands ih =>
      cases operators with
      | nil =>
          rw [elementsOf, operatorsOf_append, bracketTokens_append,
            ih (fun _ member => absurd member List.not_mem_nil), List.flatMap_cons]
          rfl
      | cons op operators =>
          rw [List.forall_mem_cons] at plain
          rw [elementsOf, operatorsOf_append, bracketTokens_append, operatorsOf,
            bracketTokens_cons_of_not_isBracket plain.1, ih plain.2, List.flatMap_cons]
          rfl

theorem ofOperators_of_plain (plain : ∀ op ∈ operators, op.token.isBracket = false)
    (headed : Bool) : BracketPair.ofOperators headed operators = [] := by
  unfold BracketPair.ofOperators
  split
  · next opener closer =>
      refine if_neg fun brackets => ?_
      have other := plain opener List.mem_cons_self
      rw [Token.isBracket, brackets.1] at other
      contradiction
  · rfl

/-- A group of brackets holds a part between two operands that are left out. -/
structure Bracketed (operators : List Operator) (operands : List (Tree Token Operator))
    (opener closer : Operator) (left right : Token) (inner : Tree Token Operator) : Prop where
  operators_eq : operators = [opener, closer]
  opener_eq : opener.token.lexeme = .opener
  closer_eq : closer.token.lexeme = .closer
  operands_eq : operands = [.leaf left, inner, .leaf right]
  left_eq : left.kind = .void
  right_eq : right.kind = .void

end Grouping.Tree

open Grouping.Tree

variable {lexicon : Lexicon} {source : Source} {operators : List Operator}
  {operands : List (Tree Token Operator)} {tree : Tree Token Operator}

/-- A group that starts with an opening bracket is one of brackets. -/
theorem Formed.exists_bracketed {opener closer : Operator}
    (formed : Formed lexicon source [opener, closer] operands)
    (opener_eq : opener.token.lexeme = .opener) (closer_eq : closer.token.lexeme = .closer) :
    ∃ left right inner, Bracketed [opener, closer] operands opener closer left right inner := by
  have leads : opener.token.kind = .operator .prefixOp :=
    (formed.fits opener (by simp)).token.allows opener_eq
  have trails : closer.token.kind = .operator .suffixOp :=
    (formed.fits closer (by simp)).token.allows closer_eq
  obtain ⟨left, head_eq, left_eq⟩ := formed.leads opener rfl leads
  obtain ⟨right, last_eq, right_eq⟩ := formed.trails closer rfl trails
  obtain ⟨first, inner, last, rfl⟩ := List.length_eq_three.mp formed.ordered.arity
  obtain rfl := Option.some.inj head_eq
  obtain rfl := Option.some.inj last_eq
  exact ⟨left, right, inner, rfl, opener_eq, closer_eq, rfl, left_eq, right_eq⟩

/-- A group is one of brackets, or has none among its operators. -/
theorem Formed.bracketed_or_plain (formed : Formed lexicon source operators operands) :
    (∃ opener closer left right inner,
      Bracketed operators operands opener closer left right inner) ∨
    ∀ op ∈ operators, op.token.isBracket = false := by
  cases formed.makeup with
  | brackets opener_eq closer_eq =>
      obtain ⟨left, right, inner, bracketed⟩ := formed.exists_bracketed opener_eq closer_eq
      exact .inl ⟨_, _, _, _, _, bracketed⟩
  | indented indent_eq dedent_eq =>
      right
      simp [Token.isBracket, indent_eq, dedent_eq]
  | chain face merge_eq each =>
      exact .inr fun op member => Token.isBracket_eq_false
        ((Makeup.plain_of_chain formed.fits merge_eq each).other op member)
  | leaning text level each =>
      exact .inr fun op member => Token.isBracket_eq_false
        ((Makeup.plain_of_leaning each).other op member)

theorem brackets_of_bracketed {opener closer : Operator} {left right : Token}
    {inner : Tree Token Operator}
    (bracketed : Bracketed operators operands opener closer left right inner) :
    (group operators operands).brackets = opener.token :: inner.brackets ++ [closer.token] := by
  obtain ⟨rfl, opener_eq, closer_eq, rfl, -, -⟩ := bracketed
  have opens : opener.token.isBracket = true := by simp [Token.isBracket, opener_eq]
  have closes : closer.token.isBracket = true := by simp [Token.isBracket, closer_eq]
  simp only [Tree.brackets, elements_group, elementsOf_cons, elementsOf_singleton, elements_leaf,
    List.cons_append, List.nil_append, operatorsOf, operatorsOf_append, bracketTokens_append,
    bracketTokens_cons_of_isBracket opens, bracketTokens_cons_of_isBracket closes]
  rfl

theorem bracketPairs_of_bracketed {opener closer : Operator} {left right : Token}
    {inner : Tree Token Operator}
    (bracketed : Bracketed operators operands opener closer left right inner) (headed : Bool) :
    (group operators operands).bracketPairs headed =
      ⟨opener.token, closer.token, headed⟩ :: inner.bracketPairs false := by
  obtain ⟨rfl, opener_eq, closer_eq, rfl, -, -⟩ := bracketed
  simp [bracketPairs, bracketPairsOf, BracketPair.ofOperators, opener_eq, closer_eq]

theorem bracketPairs_of_plain (plain : ∀ op ∈ operators, op.token.isBracket = false)
    (headed : Bool) : (group operators operands).bracketPairs headed =
      bracketPairsOf (Node.isIndentPair operators) operands := by
  rw [bracketPairs, ofOperators_of_plain plain, List.nil_append]

/-- The brackets of a tree are matched within it, and the pairs of them are those of its
groups. -/
theorem closed_brackets (every : tree.Every (Formed lexicon source)) :
    Closed tree.brackets ∧ ∀ headed, (tree.bracketPairs headed).map BracketPair.tokens =
      matchedPairs tree.brackets := by
  induction every with
  | leaf token => exact ⟨.nil, fun _ => rfl⟩
  | @group operators operands formed within ih =>
      rcases formed.bracketed_or_plain with ⟨opener, closer, left, right, inner, bracketed⟩ | plain
      · obtain ⟨closed, pairs_eq⟩ := ih inner (by simp [bracketed.operands_eq])
        rw [brackets_of_bracketed bracketed]
        refine ⟨closed.enclose bracketed.opener_eq bracketed.closer_eq, fun headed => ?_⟩
        rw [bracketPairs_of_bracketed bracketed, List.map_cons, pairs_eq false,
          closed.matchedPairs_eq bracketed.opener_eq bracketed.closer_eq]
        exact (List.append_nil _).symm
      · obtain ⟨closed, matched_eq⟩ := Closed.flatMap fun operand member => (ih operand member).1
        rw [brackets_group plain]
        refine ⟨closed, fun headed => ?_⟩
        rw [bracketPairs_of_plain plain, matched_eq]
        generalize Node.isIndentPair operators = leading
        clear closed matched_eq formed within
        induction operands generalizing leading with
        | nil => rfl
        | cons operand operands rest =>
            rw [List.forall_mem_cons] at ih
            rw [bracketPairsOf, List.map_append, ih.1.2, rest ih.2, List.flatMap_cons]

/-- The brackets of a tree are those of the tokens that it has. -/
theorem brackets_of_elements {tokens : List Token} (fits : ∀ token ∈ tokens, token.Fits lexicon)
    (elements_eq : tree.elements = tokens.map (Token.element lexicon)) :
    tree.brackets = tokens.filter Token.isBracket := by
  rw [Tree.brackets, elements_eq]
  clear elements_eq
  induction tokens with
  | nil => rfl
  | cons token tokens ih =>
      rw [List.forall_mem_cons] at fits
      rw [List.map_cons]
      cases operand : token.isOperand with
      | true =>
          have other := Token.isBracket_eq_false (fits.1.isDelimiter_eq_false operand)
          rw [element_of_isOperand operand, operatorsOf, ih fits.2,
            List.filter_cons_of_neg (by rw [other]; exact Bool.false_ne_true)]
      | false =>
          rw [element_of_isOperator operand, operatorsOf]
          cases bracket : token.isBracket with
          | true =>
              rw [bracketTokens_cons_of_isBracket bracket, ih fits.2,
                List.filter_cons_of_pos bracket]
              rfl
          | false =>
              rw [bracketTokens_cons_of_not_isBracket bracket, ih fits.2,
                List.filter_cons_of_neg (by rw [bracket]; exact Bool.false_ne_true)]

end OperatorMarkup
