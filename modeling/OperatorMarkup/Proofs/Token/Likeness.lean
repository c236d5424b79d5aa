import OperatorMarkup.Operator.Basic
import OperatorMarkup.Proofs.Gap
import OperatorMarkup.Token.FixityChoice

/-!
# Tokens that do the same

Two tokens of one kind, lexeme and text do the same in two streams where their gaps
look alike.  The last token of a text, and what is put in behind it, may have any gap
behind it, since nothing that follows reads it: an operator there has its operand
before it, and only the gap on that side decides how tightly it binds.  A separator is
the exception, which binds as tightly as the space around it says.
-/

namespace OperatorMarkup

open Operator

/-- How two streams are compared. -/
structure Comparison where
  /-- The size of the first text. -/
  size : Nat
  /-- The size of the second text. -/
  size' : Nat
  /-- Which tokens of the two stand for each other in errors. -/
  named : Token → Token → Prop
  /-- Whether groups have to be wide alike. -/
  wide : Bool
  /-- Whether the two have to be grouped alike. -/
  exactly : Prop

namespace Token

/-- Two tokens are of one kind, lexeme and text. -/
structure Twin (first second : Token) : Prop where
  kind : first.kind = second.kind
  lexeme : first.lexeme = second.lexeme
  text : first.text = second.text

instance (first second : Token) : Decidable (Twin first second) :=
  decidable_of_iff (first.kind = second.kind ∧ first.lexeme = second.lexeme ∧
      first.text = second.text)
    ⟨fun ⟨kind, lexeme, text⟩ => ⟨kind, lexeme, text⟩,
      fun twin => ⟨twin.kind, twin.lexeme, twin.text⟩⟩

/-- Two tokens in texts of the given sizes look alike from either side, and what is
undecided of the one is decided as for the other. -/
structure Alike (comparison : Comparison) (first second : Token) : Prop
    extends Twin first second where
  lineOperator : first.lineOperator = second.lineOperator
  before : Gap.Like first.before second.before
  after : Gap.Like first.after second.after
  undecided : first.kind = .operator .ambiguous →
    FixityChoice.sides comparison.size first = FixityChoice.sides comparison.size' second ∧
      comparison.named first second

/-- Two tokens that end their streams, or were put in behind those that do.  They look
alike from the left; separators are spaced alike where the streams have to group
exactly alike. -/
structure Trailing (comparison : Comparison) (first second : Token) : Prop
    extends Twin first second where
  narrow : comparison.wide = false
  lineOperator : first.lineOperator = second.lineOperator
  before : first.lexeme.isSynthetic = false → Gap.Like first.before second.before
  spaced : comparison.exactly → first.lexeme = .separator → first.isSpaced = second.isSpaced
  inserted : first.lexeme.isSynthetic = true → first.lexeme = .dedent
  word : first.lexeme = .word → first.isOperand = true
  undecided : first.kind = .operator .ambiguous ↔ first.lexeme = .operator
  named : first.kind = .operator .ambiguous → comparison.named first second

/-- Two tokens are grouped alike, where that is asked for, and into groups that differ
at most in whether they are wide. -/
structure Interchangeable (comparison : Comparison) (lexicon : Lexicon) (first second : Token) :
    Prop extends Twin first second where
  faces : comparison.exactly → first.isOperand = false → faces lexicon first = faces lexicon second
  isLineLevel : first.isLineLevel = second.isLineLevel
  isLineBreak : first.isLineBreak = second.isLineBreak
  blank : first.isLineBreak = true → (2 ≤ first.gapHeight ↔ 2 ≤ second.gapHeight)
  spaced : comparison.wide = true → first.isSpaced = second.isSpaced

variable {comparison : Comparison} {lexicon : Lexicon} {first second : Token} {kind : Kind}

theorem Twin.isOperand (twin : Twin first second) : first.isOperand = second.isOperand := by
  rw [Token.isOperand, Token.isOperand, twin.kind]

/-! ## What the gaps of a token tell -/

theorem spacedBefore_eq (before : Gap.Like first.before second.before) :
    first.metrics.spacedBefore = second.metrics.spacedBefore := by
  have columns := before.lastLine
  have height := before.height_pos_iff
  simp only [metrics, Metrics.measure, Metrics.spacedBefore, gt_iff_lt, Nat.pos_iff_ne_zero,
    ne_eq] at height ⊢
  simp only [columns, height]

theorem spacedAfter_eq (after : Gap.Like first.after second.after) :
    first.metrics.spacedAfter = second.metrics.spacedAfter := by
  have columns := after.firstLine
  have height := after.height_pos_iff
  simp only [metrics, Metrics.measure, Metrics.spacedAfter, gt_iff_lt, Nat.pos_iff_ne_zero,
    ne_eq] at height ⊢
  simp only [columns, height]

namespace Alike

theorem spaced (alike : Alike comparison first second) :
    first.isSpaced = second.isSpaced := by
  rw [isSpaced, isSpaced, Metrics.spaced, Metrics.spaced, spacedBefore_eq alike.before,
    spacedAfter_eq alike.after]

theorem gapHeight (alike : Alike comparison first second) :
    (0 < first.gapHeight ↔ 0 < second.gapHeight) ∧
      (2 ≤ first.gapHeight ↔ 2 ≤ second.gapHeight) := by
  have before := alike.before.height
  have after := alike.after.height
  simp only [Token.gapHeight, heightBefore, heightAfter]
  omega

theorem isLineBreak (alike : Alike comparison first second) :
    first.isLineBreak = second.isLineBreak := by
  rw [Token.isLineBreak, Token.isLineBreak, ← alike.lexeme]
  split
  · rfl
  · exact decide_eq_decide.mpr alike.gapHeight.1
  · rfl

/-- Tokens that look alike have the same faces. -/
theorem faces (alike : Alike comparison first second) (lexicon : Lexicon) :
    faces lexicon first = faces lexicon second := by
  have lineBreak : lineBreakPriority first = lineBreakPriority second := by
    simp only [lineBreakPriority, ge_iff_le, alike.gapHeight.2]
  have juxtaposition : juxtapositionPriority first = juxtapositionPriority second := by
    simp only [juxtapositionPriority, gt_iff_lt, alike.gapHeight.1, lineBreak, alike.spaced]
  have separator : separatorPriority first = separatorPriority second := by
    rw [separatorPriority, separatorPriority, alike.text, alike.spaced]
  have lines : lineFaces first = lineFaces second := by
    funext fixity
    cases fixity <;> simp only [lineFaces, alike.text]
  have inlines : inlineFaces first = inlineFaces second := by
    funext fixity
    cases fixity <;> simp only [inlineFaces, alike.text, alike.spaced,
      spacedBefore_eq alike.before, spacedAfter_eq alike.after]
  simp only [Operator.faces, alike.kind, alike.lexeme, alike.text, alike.lineOperator, lineBreak,
    juxtaposition, separator, lines, inlines]

theorem interchangeable (alike : Alike comparison first second) :
    Interchangeable comparison lexicon first second := by
  refine ⟨alike.toTwin, fun _ _ => alike.faces lexicon, ?_, alike.isLineBreak,
    fun _ => alike.gapHeight.2, fun _ => alike.spaced⟩
  rw [isLineLevel, isLineLevel, alike.isLineBreak, alike.lineOperator]

/-- Two tokens still look alike once they are decided alike. -/
theorem withKind (alike : Alike comparison first second)
    (decided : kind ≠ .operator .ambiguous) :
    Alike comparison (first.withKind kind) (second.withKind kind) :=
  ⟨⟨rfl, alike.lexeme, alike.text⟩, alike.lineOperator, alike.before, alike.after,
    fun undecided => absurd undecided decided⟩

end Alike

/-- Only the gap before it decides how tightly an operator binds that has its operand
there. -/
theorem faces_eq_of_suffix (twin : Twin first second)
    (lineOperator : first.lineOperator = second.lineOperator)
    (before : Gap.Like first.before second.before) (operator : first.lexeme = .operator)
    (suffix : first.kind = .operator .suffixOp) :
    faces lexicon first = faces lexicon second := by
  have lexeme_eq : second.lexeme = .operator := twin.lexeme.symm.trans operator
  have suffix' : second.kind = .operator .suffixOp := twin.kind.symm.trans suffix
  simp only [faces, operator, lexeme_eq, suffix, suffix', lineOperator, Kind.fixity?,
    Option.getD_some, lineFaces, inlineFaces, twin.text, spacedBefore_eq before]

namespace Trailing

theorem isLineBreak_eq_false (trailing : Trailing comparison first second) :
    first.isLineBreak = false ∧ second.isLineBreak = false := by
  have inserted := trailing.inserted
  rw [Token.isLineBreak, Token.isLineBreak, ← trailing.lexeme]
  cases lexeme_eq : first.lexeme <;> simp_all [Lexeme.isSynthetic]

theorem isLineLevel (trailing : Trailing comparison first second) :
    first.isLineLevel = second.isLineLevel := by
  rw [Token.isLineLevel, Token.isLineLevel, trailing.isLineBreak_eq_false.1,
    trailing.isLineBreak_eq_false.2, trailing.lineOperator]

/-- Decided tokens at the end of their streams are interchangeable up to width. -/
theorem interchangeable (trailing : Trailing comparison first second)
    (decided : first.lexeme ≠ .operator) :
    Interchangeable comparison lexicon first second := by
  refine ⟨trailing.toTwin, fun exact operator => ?_, trailing.isLineLevel, ?_, ?_, fun wide => ?_⟩
  · have inserted := trailing.inserted
    rw [Operator.faces, Operator.faces, ← trailing.lexeme, ← trailing.text]
    cases lexeme_eq : first.lexeme with
    | opener | closer | indent | dedent => rfl
    | separator =>
        simp only [separatorPriority, ← trailing.text, trailing.spaced exact lexeme_eq]
    | word =>
        rw [trailing.word lexeme_eq] at operator
        contradiction
    | operator => exact absurd lexeme_eq decided
    | lineBreak | juxtaposition | filler =>
        rw [lexeme_eq] at inserted
        exact nomatch inserted rfl
  · rw [trailing.isLineBreak_eq_false.1, trailing.isLineBreak_eq_false.2]
  · rw [trailing.isLineBreak_eq_false.1]
    exact nofun
  · rw [trailing.narrow] at wide
    contradiction

/-- An operator at the end of its stream stands alone or behind its operand, so the gap
behind it does not matter. -/
theorem chosen (trailing : Trailing comparison first second)
    (operator : first.lexeme = .operator)
    (leaning : kind = .nullary ∨ kind = .operator .suffixOp) :
    Interchangeable comparison lexicon (first.withKind kind) (second.withKind kind) := by
  have notBreak : (first.withKind kind).isLineBreak = false := trailing.isLineBreak_eq_false.1
  have notBreak' : (second.withKind kind).isLineBreak = false := trailing.isLineBreak_eq_false.2
  refine ⟨⟨rfl, trailing.lexeme, trailing.text⟩, fun _ turn => ?_, trailing.isLineLevel,
    notBreak.trans notBreak'.symm, ?_, fun wide => ?_⟩
  · rcases leaning with rfl | rfl
    · contradiction
    · exact faces_eq_of_suffix ⟨rfl, trailing.lexeme, trailing.text⟩ trailing.lineOperator
        (trailing.before (by rw [operator]; rfl)) operator rfl
  · rw [notBreak]
    exact nofun
  · rw [trailing.narrow] at wide
    contradiction

end Trailing

end Token

end OperatorMarkup
