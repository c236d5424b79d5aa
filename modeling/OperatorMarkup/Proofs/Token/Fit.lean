import OperatorMarkup.Lexicon

/-!
# Tokens that fit their lexemes

The kind and the text of a token in a stream follow from how it came about.  A
bracket is one character of its class, an operator starts with neither an opening
nor a closing bracket, and a token that was put in has no text.
-/

namespace OperatorMarkup

/-- The kinds that a token of a lexeme has. -/
def Lexeme.Allows : Lexeme → Kind → Prop
  | word, kind => kind = .identifier
  | operator, kind => kind = .nullary ∨ kind.isOperator = true
  | separator, kind | indent, kind | lineBreak, kind | juxtaposition, kind =>
      kind = .operator .infixOp
  | opener, kind => kind = .operator .prefixOp
  | closer, kind | dedent, kind => kind = .operator .suffixOp
  | filler, kind => kind = .void

/-- Whether tokens of a lexeme open or close something. -/
def Lexeme.isDelimiter : Lexeme → Bool
  | opener | closer | indent | dedent => true
  | word | operator | separator | lineBreak | juxtaposition | filler => false

/-- The tokens that open or close something. -/
def delimiters (tokens : List Token) : List Token :=
  tokens.filter (·.lexeme.isDelimiter)

/-- The texts that a token of a lexeme has. -/
def Lexicon.Spells (lexicon : Lexicon) : Lexeme → List Char → Prop
  | .word, text | .separator, text => text ≠ []
  | .operator, text =>
      ∃ c rest, text = c :: rest ∧ c ∉ lexicon.opens ∧ c ∉ lexicon.closes
  | .opener, text => ∃ c ∈ lexicon.opens, text = [c]
  | .closer, text => ∃ c ∈ lexicon.closes, c ∉ lexicon.opens ∧ text = [c]
  | .indent, text | .dedent, text | .lineBreak, text | .juxtaposition, text | .filler, text =>
      text = []

/-- A token is what its lexeme says. -/
structure Token.Fits (lexicon : Lexicon) (token : Token) : Prop where
  allowed : token.lexeme.Allows token.kind
  spelled : lexicon.Spells token.lexeme token.text.toList
  line_operator : token.lineOperator = true →
    token.lexeme = .operator ∧ 3 ≤ token.text.length

namespace Token.Fits

variable {lexicon : Lexicon} {token : Token}

theorem allows {lexeme : Lexeme} (fits : token.Fits lexicon) (lexeme_eq : token.lexeme = lexeme) :
    lexeme.Allows token.kind :=
  lexeme_eq ▸ fits.allowed

/-- Only runs of operator characters take a line. -/
theorem lineOperator_eq_false (fits : token.Fits lexicon) (other : token.lexeme ≠ .operator) :
    token.lineOperator = false := by
  cases line : token.lineOperator with
  | false => rfl
  | true => exact absurd (fits.line_operator line).1 other

theorem text_eq_empty (fits : token.Fits lexicon)
    (synthetic : token.lexeme.isSynthetic = true) : token.text = "" := by
  have spelled := fits.spelled
  rw [← String.toList_inj]
  cases lexeme_eq : token.lexeme <;> simp_all [Lexeme.isSynthetic, Lexicon.Spells]

theorem text_ne_empty (fits : token.Fits lexicon)
    (written : token.lexeme.isSynthetic = false) : token.text.toList ≠ [] := by
  have spelled := fits.spelled
  intro empty
  rw [empty] at spelled
  cases lexeme_eq : token.lexeme <;> simp_all [Lexeme.isSynthetic, Lexicon.Spells]

/-- An operand is a word, an operator that stands alone or a filler. -/
theorem operand_cases (fits : token.Fits lexicon) (operand : token.isOperand = true) :
    (token.lexeme = .word ∧ token.kind = .identifier) ∨
      (token.lexeme = .operator ∧ token.kind = .nullary) ∨
      (token.lexeme = .filler ∧ token.kind = .void) := by
  have allowed := fits.allowed
  rw [Token.isOperand] at operand
  cases lexeme_eq : token.lexeme <;> rw [lexeme_eq] at allowed
  case word => exact .inl ⟨rfl, allowed⟩
  case filler => exact .inr (.inr ⟨rfl, allowed⟩)
  case operator =>
    rcases allowed with kind_eq | isOperator
    · exact .inr (.inl ⟨rfl, kind_eq⟩)
    · rw [Kind.isOperand, isOperator] at operand
      contradiction
  all_goals
    rw [allowed] at operand
    contradiction

theorem isDelimiter_eq_false (fits : token.Fits lexicon) (operand : token.isOperand = true) :
    token.lexeme.isDelimiter = false := by
  rcases fits.operand_cases operand with ⟨lexeme_eq, _⟩ | ⟨lexeme_eq, _⟩ | ⟨lexeme_eq, _⟩ <;>
    rw [lexeme_eq] <;> rfl

end Token.Fits

end OperatorMarkup
