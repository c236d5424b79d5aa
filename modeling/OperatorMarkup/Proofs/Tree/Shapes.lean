import OperatorMarkup.Proofs.Operator.Makeup
import OperatorMarkup.Proofs.Token.Gaps
import OperatorMarkup.Proofs.Tree.Build

/-!
# The nodes of groups

The operators of a group tell what its node is: a pair of brackets, an indented part, lines
with or without a blank line among them, operands side by side, or operands under an operator
with a text.
-/

namespace OperatorMarkup

open Operator

/-- Whether an operator stands between two lines, or two operands, without a text. -/
def Operator.IsBlankLine (op : Operator) : Prop :=
  op.token.isJoint = true ∧ 2 ≤ op.token.gapHeight

/-- Whether an operator stands at a line end without a blank line. -/
def Operator.IsLineEnd (op : Operator) : Prop :=
  op.token.isJoint = true ∧ op.token.gapHeight = 1

namespace Node

/-- What the node of a group is, given its operators and its operands. -/
inductive Shaped (operators : List Operator) (operands : List Node) : Node → Prop
  /-- Brackets make a pair of their texts. -/
  | pair {opener closer : Operator} (operators_eq : operators = [opener, closer])
      (opener_eq : opener.token.lexeme = .opener) (closer_eq : closer.token.lexeme = .closer)
      (wide : Bool) (span : Span) :
      Shaped operators operands
        (.group .inline (.pair opener.token.text closer.token.text) wide operands ⟨span, "", ""⟩)
  /-- An indent and its dedent make an indented part. -/
  | indented {indent dedent : Operator} {head body tail : Node}
      (operators_eq : operators = [indent, dedent]) (indent_eq : indent.token.lexeme = .indent)
      (dedent_eq : dedent.token.lexeme = .dedent) (operands_eq : operands = [head, body, tail])
      (span : Span) : Shaped operators operands (indentBlock operators span head body tail)
  /-- Line ends make a paragraph. -/
  | paragraph (lines : ∀ op ∈ operators, op.IsLineEnd) (span : Span) :
      Shaped operators operands (block .paragraph operands span)
  /-- Blank lines make a blank block. -/
  | blank (lines : ∀ op ∈ operators, op.IsBlankLine) (span : Span) :
      Shaped operators operands (block .blank operands span)
  /-- Operands stand side by side. -/
  | juxtaposed (joints : ∀ op ∈ operators, op.token.isJoint = true) (wide : Bool) (span : Span) :
      Shaped operators operands (.group .inline .empty wide operands ⟨span, "", ""⟩)
  /-- Operators of one text name it, which is no tag of lines. -/
  | named {form : Form} {text : String}
      (plain : ∀ op ∈ operators, op.token.lexeme.isDelimiter = false) (nonempty : text ≠ "")
      (long : form = .block → 3 ≤ text.length) (wide : Bool) (span : Span) :
      Shaped operators operands (.group form (.single text) wide operands ⟨span, "", ""⟩)

section Shapes

variable {lexicon : Lexicon} {op first opener closer : Operator} {operators : List Operator}
  {operands : List Node} {span : Span} {node : Node} {text : String} {level : Bool}

/-- An operator without a text that is no delimiter is a joint. -/
theorem isJoint_of_text_eq (fits : op.Fits lexicon) (turn : op.token.isOperand = false)
    (plain : op.token.lexeme.isDelimiter = false) (text_eq : op.token.text = "") :
    op.token.isJoint = true := by
  have allowed := fits.token.allowed
  have written : op.token.lexeme.isSynthetic = true := by
    cases synthetic : op.token.lexeme.isSynthetic with
    | true => rfl
    | false =>
        refine absurd ?_ (fits.token.text_ne_empty synthetic)
        rw [text_eq]
        rfl
  rw [Token.isJoint_iff]
  cases lexeme_eq : op.token.lexeme <;> rw [lexeme_eq] at written plain allowed <;>
    first | contradiction | simp
  rw [Token.isOperand, show op.token.kind = .void from allowed] at turn
  contradiction

/-- A joint measures its gap, and one that takes lines has a line end there. -/
theorem lineBreakPriority_of_joint (fits : op.Fits lexicon) (isJoint : op.token.isJoint = true)
    (level : op.token.Level) (line : op.token.isLineLevel = true) :
    0 < op.token.gapHeight ∧ op.left.priority = lineBreakPriority op.token ∧
      op.token.isLineBreak = true := by
  have notLine : op.token.lineOperator = false := by
    apply fits.token.lineOperator_eq_false
    rcases (Token.isJoint_iff _).mp isJoint with lexeme_eq | lexeme_eq <;> rw [lexeme_eq] <;> decide
  rw [Token.isLineLevel, notLine, Bool.or_false] at line
  rw [fits.eq]
  rcases (Token.isJoint_iff _).mp isJoint with lexeme_eq | lexeme_eq
  · refine ⟨?_, by simp [Operator.ofToken, faces, lexeme_eq], line⟩
    exact Nat.lt_of_lt_of_le (level.lineEnd lexeme_eq) (Nat.le_max_right _ _)
  · have tall : 0 < op.token.gapHeight := by simpa [Token.isLineBreak, lexeme_eq] using line
    exact ⟨tall, by simp [Operator.ofToken, faces, lexeme_eq, juxtapositionPriority, tall], line⟩

/-- Joints that take lines make a paragraph or a blank block. -/
theorem shaped_of_lines (fits : ∀ op ∈ first :: operators, op.Fits lexicon)
    (joints : ∀ op ∈ first :: operators, op.token.isJoint = true)
    (levels : ∀ op ∈ first :: operators, op.token.Level)
    (lines : ∀ op ∈ first :: operators, op.token.isLineLevel = true)
    (same : ∀ op ∈ first :: operators, op.left.priority = first.left.priority) :
    Shaped (first :: operators) operands
      (block (lineTag first (first :: operators)) operands span) := by
  have heights : ∀ op ∈ first :: operators, 0 < op.token.gapHeight ∧
      op.left.priority = lineBreakPriority op.token ∧ op.token.isLineBreak = true :=
    fun op member => lineBreakPriority_of_joint (fits op member) (joints op member)
      (levels op member) (lines op member)
  have priority_eq : ∀ op ∈ first :: operators, ∀ other ∈ first :: operators,
      lineBreakPriority op.token = lineBreakPriority other.token := by
    intro op member other otherMember
    rw [← (heights op member).2.1, ← (heights other otherMember).2.1, same op member,
      same other otherMember]
  rw [lineTag, if_pos (heights first List.mem_cons_self).2.2]
  split
  · next tall =>
      obtain ⟨other, otherMember, tall⟩ := List.any_eq_true.mp tall
      refine .blank (fun op member => ⟨joints op member, ?_⟩) span
      have equal := priority_eq op member other otherMember
      rw [lineBreakPriority, lineBreakPriority, if_pos (of_decide_eq_true tall)] at equal
      split at equal
      · assumption
      · contradiction
  · next flat =>
      refine .paragraph (fun op member => ⟨joints op member, ?_⟩) span
      have low : ¬ 2 ≤ op.token.gapHeight := fun tall =>
        flat (List.any_eq_true.mpr ⟨op, member, decide_eq_true tall⟩)
      have := (heights op member).1
      omega

theorem lineTag_of_text_ne (fits : first.Fits lexicon) (nonempty : first.token.text ≠ "")
    (line : first.token.isLineLevel = true) :
    lineTag first operators = .single first.token.text ∧ 3 ≤ first.token.text.length := by
  have notBreak : first.token.isLineBreak = false := by
    cases lineBreak : first.token.isLineBreak with
    | false => rfl
    | true =>
        refine absurd (fits.token.text_eq_empty ?_) nonempty
        cases lexeme_eq : first.token.lexeme <;> simp_all [Token.isLineBreak, Lexeme.isSynthetic]
  rw [Token.isLineLevel, notBreak, Bool.false_or] at line
  rw [lineTag, notBreak, if_neg Bool.false_ne_true]
  exact ⟨rfl, (fits.token.line_operator line).2⟩

theorem inlineTag?_of_same (same : ∀ op ∈ operators, op.token.text = first.token.text) :
    inlineTag? first operators = some (.single first.token.text) := by
  have all : operators.all (·.token.text == first.token.text) = true :=
    List.all_eq_true.mpr fun op member => beq_iff_eq.mpr (same op member)
  simp only [inlineTag?, all, if_true]

/-- Operators with one text name it, and joints have none. -/
theorem shaped_of_plain (fits : ∀ op ∈ first :: operators, op.Fits lexicon)
    (turns : ∀ op ∈ first :: operators, op.token.isOperand = false)
    (levels : ∀ op ∈ first :: operators, op.token.Level)
    (plain : Makeup.Plain (first :: operators) text level)
    (same : text = "" → ∀ op ∈ first :: operators, op.left.priority = first.left.priority)
    (build_eq : ofTagged first (first :: operators) operands span = .ok node) :
    Shaped (first :: operators) operands node := by
  have first_eq := plain.text_eq first List.mem_cons_self
  have firstFits := fits first List.mem_cons_self
  by_cases empty : text = ""
  · have joints : ∀ op ∈ first :: operators, op.token.isJoint = true := fun op member =>
      isJoint_of_text_eq (fits op member) (turns op member) (plain.other op member)
        ((plain.text_eq op member).trans empty)
    rcases ofTagged_cases build_eq with ⟨line, -, rfl⟩ | ⟨tag, tag_eq, rfl⟩
    · refine shaped_of_lines fits joints levels (fun op member => ?_) (same empty)
      rw [plain.level_eq op member, ← plain.level_eq first List.mem_cons_self, line]
    · rw [inlineTag?_of_same fun op member => (plain.text_eq op member).trans first_eq.symm,
        first_eq, empty] at tag_eq
      cases Option.some.inj tag_eq
      exact .juxtaposed joints _ span
  · have nonempty : first.token.text ≠ "" := first_eq ▸ empty
    rcases ofTagged_cases build_eq with ⟨line, -, rfl⟩ | ⟨tag, tag_eq, rfl⟩
    · obtain ⟨tag_eq, long⟩ := lineTag_of_text_ne firstFits nonempty line
      rw [tag_eq]
      exact .named plain.other nonempty (fun _ => long) true span
    · rw [inlineTag?_of_same fun op member => (plain.text_eq op member).trans first_eq.symm]
        at tag_eq
      cases Option.some.inj tag_eq
      refine .named plain.other nonempty ?_ _ span
      nofun

/-- No bracket has the text of its partner. -/
theorem text_ne_of_brackets (openerFits : opener.Fits lexicon) (closerFits : closer.Fits lexicon)
    (opener_eq : opener.token.lexeme = .opener) (closer_eq : closer.token.lexeme = .closer) :
    closer.token.text ≠ opener.token.text := by
  have opens := openerFits.token.spelled
  have closes := closerFits.token.spelled
  rw [opener_eq] at opens
  rw [closer_eq] at closes
  obtain ⟨c, isOpener, opener_text⟩ := opens
  obtain ⟨d, -, notOpener, closer_text⟩ := closes
  intro text_eq
  rw [text_eq, opener_text] at closer_text
  obtain rfl := List.singleton_inj.mp closer_text
  exact notOpener isOpener

/-- Brackets make a pair. -/
theorem shaped_of_brackets (openerFits : opener.Fits lexicon) (closerFits : closer.Fits lexicon)
    (opener_eq : opener.token.lexeme = .opener) (closer_eq : closer.token.lexeme = .closer)
    (build_eq : ofTagged opener [opener, closer] operands span = .ok node) :
    Shaped [opener, closer] operands node := by
  have flat : opener.token.isLineLevel = false := by
    rw [Token.isLineLevel, openerFits.token.lineOperator_eq_false (by rw [opener_eq]; decide),
      Bool.or_false, Token.isLineBreak, opener_eq]
  have differ := text_ne_of_brackets openerFits closerFits opener_eq closer_eq
  rcases ofTagged_cases build_eq with ⟨line, -⟩ | ⟨tag, tag_eq, rfl⟩
  · rw [flat] at line
    contradiction
  · rw [inlineTag?, if_neg (by simpa using differ)] at tag_eq
    cases Option.some.inj tag_eq
    exact .pair rfl opener_eq closer_eq _ span

/-- The operators of a group tell what its node is. -/
theorem ofGroup_shaped (fits : ∀ op ∈ operators, op.Fits lexicon)
    (turns : ∀ op ∈ operators, op.token.isOperand = false)
    (levels : ∀ op ∈ operators, op.token.Level) (makeup : Makeup lexicon operators)
    (build_eq : ofGroup operators operands = .ok node) : Shaped operators operands node := by
  obtain ⟨-, first, rest, span, rfl, -, ⟨isPair, head, body, tail, rfl, rfl⟩ | ⟨notPair, tagged⟩⟩ :=
    ofGroup_cases build_eq
  · obtain ⟨indent, dedent, operators_eq, indent_eq, dedent_eq⟩ := exists_of_isIndentPair isPair
    exact .indented operators_eq indent_eq dedent_eq rfl span
  cases makeup with
  | brackets opener_eq closer_eq =>
      exact shaped_of_brackets (fits _ (by simp)) (fits _ (by simp)) opener_eq closer_eq tagged
  | indented indent_eq dedent_eq =>
      rw [isIndentPair, indent_eq, dedent_eq] at notPair
      contradiction
  | chain face merge_eq each =>
      refine shaped_of_plain fits turns levels (Makeup.plain_of_chain fits merge_eq each)
        (fun _ op member => ?_) tagged
      rw [(each op member).1, (each first List.mem_cons_self).1]
  | leaning text level each =>
      refine shaped_of_plain fits turns levels (Makeup.plain_of_leaning each)
        (fun empty => ?_) tagged
      have firstFits := fits first List.mem_cons_self
      obtain ⟨lexeme_eq, text_eq, -⟩ := each first List.mem_cons_self
      refine absurd ?_ (firstFits.token.text_ne_empty (by rw [lexeme_eq]; rfl))
      rw [text_eq, empty]
      rfl

end Shapes

end Node

end OperatorMarkup
