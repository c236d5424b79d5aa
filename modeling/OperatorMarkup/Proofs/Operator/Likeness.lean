import OperatorMarkup.Proofs.Grouping.Relating
import OperatorMarkup.Proofs.Operator.Levels
import OperatorMarkup.Proofs.Token.Likeness
import OperatorMarkup.Proofs.Tree.Build
import OperatorMarkup.Proofs.Tree.Outline

/-!
# Operators that do the same

Operators with the same faces are ordered alike, so two streams of such operators are
grouped alike, and tokens that can stand for each other build groups with the same
outline.  Of delimiters even less has to be the same, since their faces follow from
their texts.
-/

namespace OperatorMarkup

open Grouping

variable {comparison : Comparison} {lexicon : Lexicon} {source other : Source}
  {op op' left left' right right' : Operator} {ops ops' : List Operator}

namespace Operator

/-- Two operators have the same faces. -/
structure FacesEq (op op' : Operator) : Prop where
  left : op.left = op'.left
  right : op.right = op'.right

/-- Two operators have the same faces and tokens that can stand for each other. -/
structure Counterpart (comparison : Comparison) (lexicon : Lexicon) (op op' : Operator) : Prop
    extends FacesEq op op' where
  tokens : op.token.Interchangeable comparison lexicon op'.token
  fits : op.token.Fits lexicon

/-- Whatever the errors. -/
def AnyErrors (_ _ : Error) : Prop :=
  True

theorem order_related (lefts : FacesEq left left') (rights : FacesEq right right') :
    Except.Related AnyErrors Eq (order left right) (order left' right') := by
  rw [order, order, ← lefts.right, ← rights.left]
  split
  · exact .ok rfl
  · split
    · exact .error trivial
    · split
      · exact .ok rfl
      · split
        · exact .ok rfl
        · split
          · exact .ok rfl
          · exact .ok rfl
          · exact .error trivial

theorem mayStart_related (faces : FacesEq op op') :
    Except.Related AnyErrors Eq (mayStart op) (mayStart op') := by
  rw [mayStart, mayStart, ← faces.left]
  split
  · exact .error trivial
  · exact .ok rfl

theorem mayEnd_related (faces : FacesEq op op') :
    Except.Related AnyErrors Eq (mayEnd op) (mayEnd op') := by
  rw [mayEnd, mayEnd, ← faces.right]
  split
  · exact .error trivial
  · exact .ok rfl

/-! ## Nesting -/

theorem nestStep_related {pending pending' : List Operator}
    (stacksRelated : List.Forall₂ FacesEq pending pending') (faces : FacesEq op op') :
    Except.Related AnyErrors (List.Forall₂ FacesEq) (nestStep pending op)
      (nestStep pending' op') := by
  unfold nestStep
  rw [← faces.left, ← faces.right]
  split
  · cases stacksRelated with
    | nil => exact .error trivial
    | cons head outer =>
        simp only [← head.right]
        split
        · exact .ok outer
        · exact .error trivial
  · split
    · exact .ok (.cons faces stacksRelated)
    · exact .ok stacksRelated

theorem nest_related {pending pending' : List Operator}
    (stacksRelated : List.Forall₂ FacesEq pending pending')
    (faces : List.Forall₂ FacesEq ops ops') :
    Except.Related AnyErrors (List.Forall₂ FacesEq) (nest pending ops) (nest pending' ops') := by
  induction faces generalizing pending pending' with
  | nil => exact .ok stacksRelated
  | cons head _ ih =>
      rw [nest_cons, nest_cons]
      exact (nestStep_related stacksRelated head).bind fun _ _ next => ih next

/-- The faces of a delimiter follow from its lexeme and its text. -/
theorem facesEq_of_isDelimiter {first second : Token} (twin : first.Twin second)
    (delimiter : first.lexeme.isDelimiter = true) :
    FacesEq (ofToken lexicon first) (ofToken lexicon second) := by
  have faces_eq : faces lexicon first = faces lexicon second := by
    rw [faces, faces, ← twin.lexeme, ← twin.text]
    cases lexeme_eq : first.lexeme <;>
      first | rfl | simp [lexeme_eq, Lexeme.isDelimiter] at delimiter
  exact ⟨congrArg Prod.fst faces_eq, congrArg Prod.snd faces_eq⟩

theorem delimiterOperators_facesEq (lexicon : Lexicon) {tokens tokens' : List Token}
    (twins : List.Forall₂ Token.Twin tokens tokens') :
    List.Forall₂ FacesEq (delimiterOperators lexicon tokens)
      (delimiterOperators lexicon tokens') := by
  induction twins with
  | nil => exact .nil
  | @cons first second tokens tokens' twin _ ih =>
      rw [← List.singleton_append, ← List.singleton_append (l := tokens'),
        delimiterOperators_append, delimiterOperators_append]
      refine List.rel_append ?_ ih
      cases delimiter : first.lexeme.isDelimiter with
      | true =>
          rw [delimiterOperators_of_isDelimiter delimiter,
            delimiterOperators_of_isDelimiter (twin.lexeme ▸ delimiter)]
          exact .cons (facesEq_of_isDelimiter twin delimiter) .nil
      | false =>
          rw [delimiterOperators_of_not_isDelimiter delimiter,
            delimiterOperators_of_not_isDelimiter (twin.lexeme ▸ delimiter)]
          exact .nil

end Operator

/-! ## Groups -/

section Lists

variable {α β : Type} {related : α → β → Prop} {first : List α} {second : List β} {p : α → Bool}
  {q : β → Bool}

theorem all_eq_of_forall₂ (lists : List.Forall₂ related first second)
    (same : ∀ a b, related a b → p a = q b) : first.all p = second.all q := by
  induction lists with
  | nil => rfl
  | cons head _ ih => rw [List.all_cons, List.all_cons, same _ _ head, ih]

theorem any_eq_of_forall₂ (lists : List.Forall₂ related first second)
    (same : ∀ a ∈ first, ∀ b, related a b → p a = q b) : first.any p = second.any q := by
  induction lists with
  | nil => rfl
  | cons head _ ih =>
      rw [List.forall_mem_cons] at same
      rw [List.any_cons, List.any_cons, same.1 _ head, ih same.2]

end Lists

namespace Node

variable {operands operands' : List Node} {span span' : Span}

/-- Two trees have the same outline, as far as widths are compared. -/
def OutlineEq (comparison : Comparison) (node node' : Node) : Prop :=
  node.outline comparison.wide = node'.outline comparison.wide

theorem map_outline_eq (outlines : List.Forall₂ (OutlineEq comparison) operands operands') :
    operands.map (outline comparison.wide) = operands'.map (outline comparison.wide) := by
  induction outlines with
  | nil => rfl
  | cons head _ ih => rw [List.map_cons, List.map_cons, head, ih]

theorem ofToken_outlineEq {first second : Token}
    (related : first.Interchangeable comparison lexicon second) :
    OutlineEq comparison (ofToken source first) (ofToken other second) := by
  rw [OutlineEq, ofToken, ofToken, ← related.kind, ← related.text]
  split <;> rfl

theorem indentBlock_outlineEq {head head' body body' tail tail' : Node}
    (heads : OutlineEq comparison head head') (bodies : OutlineEq comparison body body')
    (tails : OutlineEq comparison tail tail') (operators others : List Operator) :
    OutlineEq comparison (indentBlock operators span head body tail)
      (indentBlock others span' head' body' tail') := by
  rw [OutlineEq, outline_indentBlock operators [] span span, heads, bodies, tails,
    outline_indentBlock others [] span' span]

variable {first first' : Operator}

/-- Among operators of a line break's text that join or part lines, all are line
breaks. -/
theorem isLineBreak_of_isLineLevel (firstFits : first.token.Fits lexicon)
    (fits : op.token.Fits lexicon) (lineBreak : first.token.isLineBreak = true)
    (level : op.token.isLineLevel = true) (text_eq : op.token.text = first.token.text) :
    op.token.isLineBreak = true := by
  have empty : first.token.text = "" := by
    apply firstFits.text_eq_empty
    rw [Token.isLineBreak] at lineBreak
    cases lexeme_eq : first.token.lexeme <;> simp_all [Lexeme.isSynthetic]
  cases line : op.token.lineOperator with
  | false => simpa [Token.isLineLevel, line] using level
  | true =>
      have long := (fits.line_operator line).2
      rw [text_eq, empty] at long
      contradiction

theorem lineTag_eq (counterparts : List.Forall₂ (Operator.Counterpart comparison lexicon) ops ops')
    (head : first.Counterpart comparison lexicon first')
    (levels : ops.all fun op =>
      op.token.isLineLevel && op.token.text == first.token.text) :
    lineTag first ops = lineTag first' ops' := by
  rw [lineTag, lineTag, ← head.tokens.isLineBreak, ← head.tokens.text]
  split
  · next lineBreak =>
      have tall : (ops.any (·.token.gapHeight ≥ 2)) = ops'.any (·.token.gapHeight ≥ 2) := by
        apply any_eq_of_forall₂ counterparts
        intro op member op' pair
        have level := List.all_eq_true.mp levels op member
        rw [Bool.and_eq_true, beq_iff_eq] at level
        have broken := isLineBreak_of_isLineLevel head.fits pair.fits lineBreak level.1 level.2
        exact decide_eq_decide.mpr (pair.tokens.blank broken)
      rw [tall]
  · rfl

theorem inlineTag?_eq
    (counterparts : List.Forall₂ (Operator.Counterpart comparison lexicon) ops ops')
    (head : first.Counterpart comparison lexicon first') :
    inlineTag? first ops = inlineTag? first' ops' := by
  have same := all_eq_of_forall₂ counterparts (p := (·.token.text == first.token.text))
    (q := (·.token.text == first'.token.text)) fun op op' pair => by
      rw [pair.tokens.text, head.tokens.text]
  unfold inlineTag?
  rw [same, head.tokens.text]
  split
  · rfl
  · cases counterparts with
    | nil => rfl
    | cons opener rest =>
        cases rest with
        | nil => rfl
        | cons closer rest =>
            cases rest with
            | nil => simp only [opener.tokens.text, closer.tokens.text]
            | cons _ _ => rfl

theorem ofTagged_related
    (counterparts : List.Forall₂ (Operator.Counterpart comparison lexicon) ops ops')
    (head : first.Counterpart comparison lexicon first')
    (outlines : List.Forall₂ (OutlineEq comparison) operands operands') :
    Except.Related Operator.AnyErrors (OutlineEq comparison) (ofTagged first ops operands span)
      (ofTagged first' ops' operands' span') := by
  have levels := all_eq_of_forall₂ counterparts
    (p := fun op => op.token.isLineLevel && op.token.text == first.token.text)
    (q := fun op => op.token.isLineLevel && op.token.text == first'.token.text)
    fun op op' pair => by rw [pair.tokens.isLineLevel, pair.tokens.text, head.tokens.text]
  unfold ofTagged
  rw [← head.tokens.isLineLevel, ← levels, ← inlineTag?_eq counterparts head]
  split
  · split
    · next all =>
        refine .ok ?_
        rw [OutlineEq, outline_block, outline_block, lineTag_eq counterparts head all,
          map_outline_eq outlines]
    · exact .error trivial
  · split
    · refine .ok ?_
      have widths : (comparison.wide && ops.any (·.token.isSpaced)) =
          (comparison.wide && ops'.any (·.token.isSpaced)) := by
        cases wide : comparison.wide with
        | false => rfl
        | true =>
            rw [any_eq_of_forall₂ counterparts fun op _ op' pair => pair.tokens.spaced wide]
      rw [OutlineEq, outline_group, outline_group, widths, map_outline_eq outlines]
    · exact .error trivial

theorem isIndentPair_eq
    (counterparts : List.Forall₂ (Operator.Counterpart comparison lexicon) ops ops') :
    isIndentPair ops = isIndentPair ops' := by
  cases counterparts with
  | nil => rfl
  | cons opener rest =>
      cases rest with
      | nil => rfl
      | cons closer rest =>
          cases rest with
          | nil => simp only [isIndentPair, opener.tokens.lexeme, closer.tokens.lexeme]
          | cons _ _ => rfl

theorem ofGroup_of_nil (operands : List Node) : ∃ error, ofGroup [] operands = .error error := by
  unfold ofGroup
  split
  · exact ⟨_, rfl⟩
  · exact ⟨_, rfl⟩
  · contradiction

/-- Groups of operators that have counterparts have the same outline, or neither can be
built. -/
theorem ofGroup_related
    (counterparts : List.Forall₂ (Operator.Counterpart comparison lexicon) ops ops')
    (outlines : List.Forall₂ (OutlineEq comparison) operands operands') :
    Except.Related Operator.AnyErrors (OutlineEq comparison) (ofGroup ops operands)
      (ofGroup ops' operands') := by
  have indents := isIndentPair_eq counterparts
  have count := counterparts.length_eq
  cases counterparts with
  | nil =>
      obtain ⟨error, error_eq⟩ := ofGroup_of_nil operands
      obtain ⟨error', error_eq'⟩ := ofGroup_of_nil operands'
      rw [error_eq, error_eq']
      exact .error trivial
  | @cons first first' rest rest' head tail =>
      obtain ⟨span, span_eq⟩ := @exists_coveredSpan? first rest operands
      obtain ⟨span', span_eq'⟩ := @exists_coveredSpan? first' rest' operands'
      simp only [ofGroup, span_eq, span_eq', ← indents, ← count, ← outlines.length_eq]
      have tagged := @ofTagged_related comparison lexicon _ _ operands operands' span span' first
        first' (.cons head tail) head outlines
      split
      · exact .error trivial
      · cases isIndentPair (first :: rest) with
        | false => exact tagged
        | true =>
            -- An indented block has a head, a body and a tail; all else is tagged.
            rcases outlines with _ | ⟨heads, _ | ⟨bodies, _ | ⟨tails, _ | _⟩⟩⟩
            · exact tagged
            · exact tagged
            · exact tagged
            · exact .ok (indentBlock_outlineEq heads bodies tails _ _)
            · exact tagged

end Node

open Operator

/-- Parsing builds trees of the same outline where operators have the same faces. -/
theorem nodeGrammar_related (source other : Source) :
    GrammarRelated (Token.Interchangeable comparison lexicon) (Counterpart comparison lexicon)
      (Node.OutlineEq comparison) AnyErrors (Node.nodeGrammar source) (Node.nodeGrammar other) where
  order _ _ _ _ lefts rights := order_related lefts.toFacesEq rights.toFacesEq
  leaf _ _ related := .ok (Node.ofToken_outlineEq related)
  node _ _ _ _ counterparts outlines := Node.ofGroup_related counterparts outlines
  mayStart _ _ counterparts := mayStart_related counterparts.toFacesEq
  mayEnd _ _ counterparts := mayEnd_related counterparts.toFacesEq
  defect _ := trivial

end OperatorMarkup
