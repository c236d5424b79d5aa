import OperatorMarkup.Proofs.Parse.Layout
import OperatorMarkup.Proofs.Token.Ending
import OperatorMarkup.Tree.Sexp

/-!
# The end of a text

The end of a text counts as a line end, so whitespace behind a text decides neither
whether it is accepted nor what it is refused for, and the tree of a text is the same
with it.  Only the space around a separator is what is there: one at the very end of a
text binds more tightly than one with whitespace behind it.
-/

namespace OperatorMarkup

variable {source : Source} {tokens : List Token} {gap : String}

/-- Two errors are of one kind. -/
def Error.sameKind : Error → Error → Bool
  | .noToken _, .noToken _ => true
  | .ambiguousNullary _, .ambiguousNullary _ => true
  | .unknownOrder _ _ _ _, .unknownOrder _ _ _ _ => true
  | .bracketMismatch _ _, .bracketMismatch _ _ => true
  | .internal _ _, .internal _ _ => true
  | _, _ => false

/-- Errors that name tokens in the same places are about the same part of a text. -/
theorem Error.Names.span?_eq {error error' : Error} (names : Names Token.Coincides error error') :
    error.sameKind error' = true ∧ error.span? = error'.span? := by
  cases names with
  | @ambiguousNullary operators operators' each =>
      have spans : operators.map Token.span = operators'.map Token.span := by
        induction each with
        | nil => rfl
        | cons coincides _ ih => rw [List.map_cons, List.map_cons, coincides.span, ih]
      exact ⟨rfl, congrArg Span.merge spans⟩
  | unmatched coincides => exact ⟨rfl, congrArg some coincides.span⟩

/-- Whitespace behind a text does not change whether it is parsed, nor the kind and the
place of the error where it is not.  It does not change the tree either, unless there is
a separator at the end of the text that is spaced by it. -/
theorem parse_extend (read_eq : tokenize .standard source = tokens.map .ok)
    (blank : Lexicon.standard.Blank gap) :
    Except.Related
      (fun error error' => error.sameKind error' = true ∧ error.span? = error'.span?)
      (fun root root' =>
        (∀ last ∈ tokens.getLast?, last.lexeme = .separator →
          last.isSpaced = true ∨ ∀ c ∈ gap.toList, c = '\r') →
        root.sexp = root'.sexp)
      (parse .standard source) (parse .standard (source.extend gap)) := by
  obtain ⟨tokens', read_eq', extended⟩ := tokenize_extend Lexicon.standard_apart blank read_eq
  have starts : ∀ first ∈ tokens.head?, ∀ second ∈ tokens'.head?,
      Gap.Agree True first.before second.before := by
    intro first member second member'
    rw [extended.before_eq first member second member']
    exact .refl _ _
  exact (parse_related read_eq read_eq' (extended.agreeing id) starts extended.coincide).imp
    (fun _ _ names => names.span?_eq)
    fun _ _ same settled => Node.sexp_eq_of_outline_eq (same settled)

/-- A text with a separator at its end, which has space before it. -/
def looseText : Source :=
  ⟨"a + b ,", none, 0⟩

theorem parse_extend_loose :
    ∃ root root', parse .standard looseText = .ok root ∧
      parse .standard (looseText.extend " \n") = .ok root' ∧ root.sexp = root'.sexp := by
  have read_eq : tokenize .standard looseText = (readTokens .standard looseText).map .ok := by cbv
  have blank : Lexicon.standard.Blank " \n" := by decide
  have related := parse_extend read_eq blank
  have accepted : (parse .standard looseText).isOk = true := by cbv
  cases root_eq : parse .standard looseText with
  | error _ =>
      rw [root_eq] at accepted
      contradiction
  | ok root =>
      rw [root_eq] at related
      obtain ⟨root', root_eq', same⟩ := related.exists_of_ok
      exact ⟨root, root', rfl, root_eq', same (by decide +kernel)⟩

/-- A text with a separator at its end, which has none. -/
def tightText : Source :=
  ⟨"a b,", none, 0⟩

/-- Space behind a separator at the end of a text loosens it. -/
theorem parse_extend_tight :
    tokenize .standard tightText = (readTokens .standard tightText).map .ok ∧
      Lexicon.standard.Blank " " ∧
      (parse .standard tightText).map Node.sexp = .ok "(_ a (, b ∅))" ∧
      (parse .standard (tightText.extend " ")).map Node.sexp = .ok "(, (_ a b) ∅)" :=
  ⟨by cbv, by decide, by cbv, by cbv⟩

end OperatorMarkup
