import OperatorMarkup.Proofs.Operator.Order

/-!
# Which operators join

A face that joins with its own kind stands on both sides of an operator, and a
face that opens or closes a pair has a face behind it that joins with none.  So
operators that were fused into one group are one operator several times in a
row, or an opening delimiter and its closing one.
-/

namespace OperatorMarkup

/-- The faces that join, in a sum: those of one text and priority, and those of
an opening and a closing delimiter that name each other. -/
theorem Face.accepts_cases {face other : Face} (joined : face.accepts other = true) :
    face.merge = .same ∧ other.merge = .same ∧ face.text = other.text ∧
        face.priority = other.priority ∨
      ∃ required required', face.merge = .opens other.text required ∧
        other.merge = .closes face.text required' := by
  simp only [accepts] at joined
  split at joined
  · next merge_eq other_eq =>
      simp only [Bool.and_eq_true, beq_iff_eq] at joined
      exact .inl ⟨merge_eq, other_eq, joined⟩
  · next closer required opener required' merge_eq other_eq =>
      simp only [Bool.and_eq_true, beq_iff_eq] at joined
      rw [← joined.1, ← joined.2]
      exact .inr ⟨required, required', merge_eq, other_eq⟩
  · contradiction

namespace Operator

/-- What an operator joins with on either side. -/
inductive Shape (lexicon : Lexicon) (op : Operator) : Prop
  | joining (plain_eq : op.token.lexeme.isDelimiter = false) (right_eq : op.right = op.left)
      (merge_eq : op.left.merge = .same) (text_eq : op.left.text = op.token.text)
      (level_eq : op.token.isLineLevel = decide (op.left.priority.band ∈ [10, 20, 22]))
  | opener (lexeme_eq : op.token.lexeme = .opener) (left_eq : op.left.merge = .never)
      (right_eq : op.right.merge =
        .opens (((lexicon.closerFor op.token.text).map Char.toString).getD "") true)
      (text_eq : op.right.text = op.token.text)
  | closer (lexeme_eq : op.token.lexeme = .closer)
      (left_eq : op.left.merge =
        .closes (((lexicon.openerFor op.token.text).map Char.toString).getD "") true)
      (text_eq : op.left.text = op.token.text) (right_eq : op.right.merge = .never)
  | indent (lexeme_eq : op.token.lexeme = .indent) (left_eq : op.left.merge = .never)
      (right_eq : op.right.merge = .opens dedentText true) (text_eq : op.right.text = indentText)
  | dedent (lexeme_eq : op.token.lexeme = .dedent)
      (left_eq : op.left.merge = .closes indentText true) (text_eq : op.left.text = dedentText)
      (right_eq : op.right.merge = .never)
  | before (lexeme_eq : op.token.lexeme = .operator) (line_eq : op.token.lineOperator = false)
      (left_eq : op.left.merge = .never) (right_eq : op.right.merge = .opens op.token.text false)
      (text_eq : op.right.text = op.token.text)
  | behind (lexeme_eq : op.token.lexeme = .operator) (line_eq : op.token.lineOperator = false)
      (left_eq : op.left.merge = .closes op.token.text false)
      (text_eq : op.left.text = op.token.text) (right_eq : op.right.merge = .never)
  | alone (lexeme_eq : op.token.lexeme = .operator) (left_eq : op.left.merge = .never)
      (right_eq : op.right.merge = .never)

variable {lexicon : Lexicon}

theorem lineBreakPriority_band (token : Token) :
    (lineBreakPriority token).band ∈ [10, 20, 22] := by
  rw [lineBreakPriority]
  split <;> decide

theorem lineOperator_shape {token : Token} (line : token.lineOperator = true)
    (lexeme_eq : token.lexeme = .operator) : Shape lexicon (ofToken lexicon token) := by
  have faces_eq : faces lexicon token = lineFaces token (token.kind.fixity?.getD .infixOp) := by
    simp [faces, lexeme_eq, line]
  have level_eq : token.isLineLevel = true := by simp [Token.isLineLevel, line]
  cases fixity_eq : token.kind.fixity?.getD .infixOp with
  | prefixOp | suffixOp =>
      apply Shape.alone lexeme_eq
      · simp [ofToken, faces_eq, fixity_eq, lineFaces, Face.immediate]
      · simp [ofToken, faces_eq, fixity_eq, lineFaces, Face.immediate]
  | infixOp | ambiguous =>
      apply Shape.joining
      · simp [ofToken, lexeme_eq, Lexeme.isDelimiter]
      · simp [ofToken, faces_eq, fixity_eq, lineFaces]
      · simp [ofToken, faces_eq, fixity_eq, lineFaces]
      · simp [ofToken, faces_eq, fixity_eq, lineFaces]
      · simp [ofToken, faces_eq, fixity_eq, lineFaces, level_eq, Priority.byWidth,
          Priority.wideLine]

theorem prefix_shape {token : Token} (line : token.lineOperator = false)
    (lexeme_eq : token.lexeme = .operator) (fixity_eq : token.kind.fixity? = some .prefixOp) :
    Shape lexicon (ofToken lexicon token) := by
  have faces_eq : faces lexicon token = inlineFaces token .prefixOp := by
    simp [faces, lexeme_eq, line, fixity_eq]
  cases spaced : token.metrics.spacedAfter with
  | true =>
      apply Shape.alone lexeme_eq
      · simp [ofToken, faces_eq, inlineFaces, Face.immediate]
      · simp [ofToken, faces_eq, inlineFaces, spaced]
  | false =>
      apply Shape.before lexeme_eq line
      · simp [ofToken, faces_eq, inlineFaces, Face.immediate]
      · simp [ofToken, faces_eq, inlineFaces, spaced]
      · simp [ofToken, faces_eq, inlineFaces, spaced]

theorem suffix_shape {token : Token} (line : token.lineOperator = false)
    (lexeme_eq : token.lexeme = .operator) (fixity_eq : token.kind.fixity? = some .suffixOp) :
    Shape lexicon (ofToken lexicon token) := by
  have faces_eq : faces lexicon token = inlineFaces token .suffixOp := by
    simp [faces, lexeme_eq, line, fixity_eq]
  cases spaced : token.metrics.spacedBefore with
  | true =>
      apply Shape.alone lexeme_eq
      · simp [ofToken, faces_eq, inlineFaces, spaced]
      · simp [ofToken, faces_eq, inlineFaces, Face.immediate]
  | false =>
      apply Shape.behind lexeme_eq line
      · simp [ofToken, faces_eq, inlineFaces, spaced]
      · simp [ofToken, faces_eq, inlineFaces, spaced]
      · simp [ofToken, faces_eq, inlineFaces, Face.immediate]

/-- An operator within a line that is neither in front of its operand nor behind
it. -/
theorem infix_shape {token : Token} (line : token.lineOperator = false)
    (written : token.lexeme = .operator ∨ token.lexeme = .word ∨ token.lexeme = .filler)
    (notPrefix : token.kind.fixity? ≠ some .prefixOp)
    (notSuffix : token.kind.fixity? ≠ some .suffixOp) :
    Shape lexicon (ofToken lexicon token) := by
  have faces_eq : faces lexicon token = inlineFaces token .infixOp := by
    have infix_eq : inlineFaces token (token.kind.fixity?.getD .infixOp) =
        inlineFaces token .infixOp := by
      cases fixity_eq : token.kind.fixity? with
      | none => rfl
      | some fixity => cases fixity <;> first | rfl | contradiction
    rcases written with lexeme_eq | lexeme_eq | lexeme_eq <;>
      simp [faces, lexeme_eq, line, infix_eq]
  have level_eq : token.isLineLevel = false := by
    rcases written with lexeme_eq | lexeme_eq | lexeme_eq <;>
      simp [Token.isLineLevel, Token.isLineBreak, lexeme_eq, line]
  apply Shape.joining
  · rcases written with lexeme_eq | lexeme_eq | lexeme_eq <;>
      simp [ofToken, lexeme_eq, Lexeme.isDelimiter]
  · simp [ofToken, faces_eq, inlineFaces]
  · simp [ofToken, faces_eq, inlineFaces]
  · simp [ofToken, faces_eq, inlineFaces]
  · simp only [ofToken, faces_eq, inlineFaces, level_eq]
    split <;> decide

/-- The operator of a token that fits its lexeme has one of the shapes. -/
theorem ofToken_shape {token : Token} (fits : token.Fits lexicon) :
    Shape lexicon (ofToken lexicon token) := by
  have allowed := fits.allowed
  have line : token.lexeme ≠ .operator → token.lineOperator = false := fits.lineOperator_eq_false
  cases lexeme_eq : token.lexeme with
  | operator =>
      cases line_eq : token.lineOperator with
      | true => exact lineOperator_shape line_eq lexeme_eq
      | false =>
          by_cases before : token.kind.fixity? = some .prefixOp
          · exact prefix_shape line_eq lexeme_eq before
          · by_cases behind : token.kind.fixity? = some .suffixOp
            · exact suffix_shape line_eq lexeme_eq behind
            · exact infix_shape line_eq (.inl lexeme_eq) before behind
  | word =>
      rw [lexeme_eq] at allowed line
      exact infix_shape (line (by decide)) (.inr (.inl lexeme_eq)) (by rw [allowed]; decide)
        (by rw [allowed]; decide)
  | filler =>
      rw [lexeme_eq] at allowed line
      exact infix_shape (line (by decide)) (.inr (.inr lexeme_eq)) (by rw [allowed]; decide)
        (by rw [allowed]; decide)
  | opener =>
      apply Shape.opener lexeme_eq <;> simp [ofToken, faces, lexeme_eq, Face.immediate]
  | closer =>
      apply Shape.closer lexeme_eq <;> simp [ofToken, faces, lexeme_eq, Face.immediate]
  | indent =>
      apply Shape.indent lexeme_eq <;> simp [ofToken, faces, lexeme_eq]
  | dedent =>
      apply Shape.dedent lexeme_eq <;> simp [ofToken, faces, lexeme_eq, Face.immediate]
  | lineBreak =>
      have text_eq : token.text = "" := fits.text_eq_empty (by rw [lexeme_eq]; rfl)
      apply Shape.joining
      · simp [ofToken, lexeme_eq, Lexeme.isDelimiter]
      · simp [ofToken, faces, lexeme_eq]
      · simp [ofToken, faces, lexeme_eq]
      · simp [ofToken, faces, lexeme_eq, text_eq]
      · have band := lineBreakPriority_band token
        simp only [ofToken, faces, lexeme_eq, Token.isLineLevel, Token.isLineBreak, band]
        rfl
  | juxtaposition =>
      rw [lexeme_eq] at line
      have text_eq : token.text = "" := fits.text_eq_empty (by rw [lexeme_eq]; rfl)
      apply Shape.joining
      · simp [ofToken, lexeme_eq, Lexeme.isDelimiter]
      · simp [ofToken, faces, lexeme_eq]
      · simp [ofToken, faces, lexeme_eq]
      · simp [ofToken, faces, lexeme_eq, text_eq]
      · simp only [ofToken, faces, lexeme_eq, Token.isLineLevel, Token.isLineBreak,
          line (by decide), juxtapositionPriority, Bool.or_false]
        by_cases broken : token.gapHeight > 0
        · simp [broken, lineBreakPriority_band token]
        · simp only [broken, if_false]
          split <;> decide
  | separator =>
      rw [lexeme_eq] at line
      apply Shape.joining
      · simp [ofToken, lexeme_eq, Lexeme.isDelimiter]
      · simp [ofToken, faces, lexeme_eq]
      · simp [ofToken, faces, lexeme_eq]
      · simp [ofToken, faces, lexeme_eq]
      · simp only [ofToken, faces, lexeme_eq, Token.isLineLevel, Token.isLineBreak,
          line (by decide), separatorPriority]
        split <;> decide

/-! ## What follows from the shapes -/

/-- An operator of a token that fits its lexeme. -/
structure Fits (lexicon : Lexicon) (op : Operator) : Prop where
  token : op.token.Fits lexicon
  eq : op = ofToken lexicon op.token

variable {op left right : Operator}

namespace Fits

theorem shape (fits : op.Fits lexicon) : Shape lexicon op := by
  rw [fits.eq]
  exact ofToken_shape fits.token

theorem leftRuled (fits : op.Fits lexicon) : op.left.Ruled := by
  rw [fits.eq]
  exact (ofToken_ruled lexicon op.token).1

theorem rightRuled (fits : op.Fits lexicon) : op.right.Ruled := by
  rw [fits.eq]
  exact (ofToken_ruled lexicon op.token).2

/-- Only openers and indents wait for a closing delimiter. -/
theorem right_isRequired_iff (fits : op.Fits lexicon) :
    op.right.merge.isRequired = true ↔
      op.token.lexeme = .opener ∨ op.token.lexeme = .indent := by
  cases fits.shape with
  | joining plain_eq right_eq merge_eq =>
      rw [right_eq, merge_eq]
      constructor
      · simp [Merge.isRequired]
      · rintro (lexeme_eq | lexeme_eq) <;> simp [lexeme_eq, Lexeme.isDelimiter] at plain_eq
  | _ => simp_all [Merge.isRequired]

/-- Only closers and dedents need an opening delimiter. -/
theorem left_isRequired_iff (fits : op.Fits lexicon) :
    op.left.merge.isRequired = true ↔
      op.token.lexeme = .closer ∨ op.token.lexeme = .dedent := by
  cases fits.shape with
  | joining plain_eq right_eq merge_eq =>
      rw [merge_eq]
      constructor
      · simp [Merge.isRequired]
      · rintro (lexeme_eq | lexeme_eq) <;> simp [lexeme_eq, Lexeme.isDelimiter] at plain_eq
  | _ => simp_all [Merge.isRequired]

/-- A delimiter that needs an opening one does not wait for a closing one. -/
theorem right_isRequired_eq_false (fits : op.Fits lexicon)
    (needs : op.left.merge.isRequired = true) : op.right.merge.isRequired = false := by
  rw [fits.left_isRequired_iff] at needs
  rw [Bool.eq_false_iff, ne_eq, fits.right_isRequired_iff]
  rcases needs with lexeme_eq | lexeme_eq <;> simp [lexeme_eq]

theorem opens_required (fits : op.Fits lexicon) {closer : String}
    (opens : op.right.merge = .opens closer true) :
    op.token.lexeme = .opener ∧ op.right.text = op.token.text ∨
      op.right.text = indentText ∧ closer = dedentText := by
  cases fits.shape <;> simp_all

theorem closes_required (fits : op.Fits lexicon) {opener : String}
    (closes : op.left.merge = .closes opener true) :
    op.token.lexeme = .closer ∧ op.left.text = op.token.text ∨
      op.left.text = dedentText ∧ opener = indentText := by
  cases fits.shape <;> simp_all

theorem opens_optional (fits : op.Fits lexicon) {closer : String}
    (opens : op.right.merge = .opens closer false) :
    op.token.lexeme = .operator ∧ op.right.text = op.token.text ∧ closer = op.token.text := by
  cases fits.shape <;> simp_all

theorem closes_optional (fits : op.Fits lexicon) {opener : String}
    (closes : op.left.merge = .closes opener false) :
    op.token.lexeme = .operator ∧ op.left.text = op.token.text ∧ opener = op.token.text := by
  cases fits.shape <;> simp_all

/-- A marker starts like no opening bracket, so it closes nothing that has to be
closed. -/
theorem not_opens_of_marker (leftFits : left.Fits lexicon) (rightFits : right.Fits lexicon)
    (opens : left.right.merge = .opens right.left.text true) :
    right.left.merge ≠ .closes left.right.text false := by
  intro closes
  obtain ⟨marker, marker_eq, text_eq⟩ := rightFits.closes_optional closes
  have markerSpelled := rightFits.token.spelled
  rw [marker, ← text_eq] at markerSpelled
  obtain ⟨c, rest, start_eq, notOpener, _⟩ := markerSpelled
  rcases leftFits.opens_required opens with ⟨lexeme_eq, opener_eq⟩ | ⟨indent_eq, closer_eq⟩
  · have openerSpelled := leftFits.token.spelled
    rw [lexeme_eq] at openerSpelled
    obtain ⟨first, member, first_eq⟩ := openerSpelled
    rw [opener_eq, first_eq, List.cons.injEq] at start_eq
    exact notOpener (start_eq.1 ▸ member)
  · rw [← text_eq, indent_eq, closer_eq] at marker_eq
    exact absurd marker_eq (by decide)

/-- A marker starts like no closing bracket, so it opens nothing that has to be
opened. -/
theorem not_closes_of_marker (leftFits : left.Fits lexicon) (rightFits : right.Fits lexicon)
    (opens : left.right.merge = .opens right.left.text false) :
    right.left.merge ≠ .closes left.right.text true := by
  intro closes
  obtain ⟨marker, marker_eq, text_eq⟩ := leftFits.opens_optional opens
  have markerSpelled := leftFits.token.spelled
  rw [marker, ← text_eq] at markerSpelled
  obtain ⟨c, rest, start_eq, _, notCloser⟩ := markerSpelled
  rcases rightFits.closes_required closes with ⟨lexeme_eq, closer_eq⟩ | ⟨dedent_eq, opener_eq⟩
  · have closerSpelled := rightFits.token.spelled
    rw [lexeme_eq] at closerSpelled
    obtain ⟨last, member, _, last_eq⟩ := closerSpelled
    rw [closer_eq, last_eq, List.cons.injEq] at start_eq
    exact notCloser (start_eq.1 ▸ member)
  · rw [← text_eq, opener_eq, dedent_eq] at marker_eq
    exact absurd marker_eq (by decide)

/-- Two delimiters that pair need each other, or neither the other. -/
theorem isRequired_eq_of_accepts (leftFits : left.Fits lexicon) (rightFits : right.Fits lexicon)
    (joined : left.right.accepts right.left = true) :
    left.right.merge.isRequired = right.left.merge.isRequired := by
  rcases Face.accepts_cases joined with
    ⟨left_eq, right_eq, _⟩ | ⟨required, required', opens, closes⟩
  · rw [left_eq, right_eq]
  · rw [opens, closes]
    cases required with
    | true =>
        cases required' with
        | true => rfl
        | false => exact absurd closes (not_opens_of_marker leftFits rightFits opens)
    | false =>
        cases required' with
        | false => rfl
        | true => exact absurd closes (not_closes_of_marker leftFits rightFits opens)

theorem joining_of_right (fits : op.Fits lexicon) (same : op.right.merge = .same) :
    op.right = op.left := by
  cases fits.shape <;> simp_all

theorem joining_of_left (fits : op.Fits lexicon) (same : op.left.merge = .same) :
    op.right = op.left ∧ op.left.text = op.token.text ∧
      op.token.isLineLevel = decide (op.left.priority.band ∈ [10, 20, 22]) := by
  cases fits.shape <;> simp_all

theorem right_never (fits : op.Fits lexicon) {opener : String} {required : Bool}
    (closes : op.left.merge = .closes opener required) : op.right.merge = .never := by
  cases fits.shape <;> simp_all

/-- Opening delimiters stand within lines. -/
theorem isLineLevel_eq_false (fits : op.Fits lexicon) {closer : String} {required : Bool}
    (opens : op.right.merge = .opens closer required) : op.token.isLineLevel = false := by
  have line := fits.token.lineOperator_eq_false
  cases fits.shape <;> simp_all [Token.isLineLevel, Token.isLineBreak]

end Fits

/-! ## Fused operators -/

/-- A chain of one operator has one text, and takes lines as a whole or not at
all. -/
theorem chain_of_fused {first : Operator} {operators : List Operator}
    (fits : ∀ op ∈ first :: operators, op.Fits lexicon) (same : first.right.merge = .same)
    (fused : ∀ pair ∈ (first :: operators).zip operators, pair.1.right.accepts pair.2.left = true) :
    ∀ op ∈ operators, op.token.text = first.token.text ∧
      op.token.isLineLevel = first.token.isLineLevel := by
  induction operators generalizing first with
  | nil => simp
  | cons second operators ih =>
      simp only [List.forall_mem_cons, List.zip_cons_cons] at fits fused ⊢
      rcases Face.accepts_cases fused.1 with ⟨_, second_eq, text_eq, priority_eq⟩ | ⟨_, _, opens, _⟩
      · have firstFaces := fits.1.joining_of_right same
        rw [firstFaces] at same text_eq priority_eq
        have firstJoins := fits.1.joining_of_left same
        have secondJoins := fits.2.1.joining_of_left second_eq
        have step : second.token.text = first.token.text ∧
            second.token.isLineLevel = first.token.isLineLevel := by
          rw [← secondJoins.2.1, ← firstJoins.2.1, secondJoins.2.2, firstJoins.2.2, text_eq,
            priority_eq]
          exact ⟨rfl, rfl⟩
        have rest := ih (by simpa using fits.2) (by rw [secondJoins.1, second_eq]) fused.2
        rw [step.1, step.2] at rest
        exact ⟨step, rest⟩
      · rw [same] at opens
        contradiction

/-- Fused operators are a chain of one operator or a pair of delimiters. -/
theorem fused_cases {first : Operator} {operators : List Operator}
    (fits : ∀ op ∈ first :: operators, op.Fits lexicon)
    (fused : ∀ pair ∈ (first :: operators).zip operators, pair.1.right.accepts pair.2.left = true) :
    (∀ op ∈ operators, op.token.text = first.token.text ∧
        op.token.isLineLevel = first.token.isLineLevel) ∨
      first.token.isLineLevel = false ∧ ∃ closer, operators = [closer] := by
  cases operators with
  | nil => exact .inl (by simp)
  | cons second rest =>
      have firstFits := fits first List.mem_cons_self
      have secondFits := fits second (by simp)
      rcases Face.accepts_cases (fused (first, second) (by simp)) with
        ⟨same, _⟩ | ⟨required, required', opens, closes⟩
      · exact .inl (chain_of_fused fits same fused)
      · refine .inr ⟨firstFits.isLineLevel_eq_false opens, second, ?_⟩
        cases rest with
        | nil => rfl
        | cons third rest =>
            have never := secondFits.right_never closes
            rcases Face.accepts_cases (fused (second, third) (by simp)) with
              ⟨same, _⟩ | ⟨_, _, opens, _⟩
            · rw [never] at same
              contradiction
            · rw [never] at opens
              contradiction

end Operator

end OperatorMarkup
