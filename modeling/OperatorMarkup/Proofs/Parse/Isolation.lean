import Mathlib
import OperatorMarkup.Proofs.Grouping.Framing
import OperatorMarkup.Proofs.Operator.Balance
import OperatorMarkup.Proofs.Parse.Outcome

/-!
# Brackets isolate what they enclose

A bracket lacks an operand on its outer side, so a void one stands there, and binds it
tighter than any other operator.  Together with its partner it is an atom to whatever
stands around it, and what stands between the two is grouped as if it were alone.
-/

namespace OperatorMarkup

open Grouping Operator

variable {lexicon : Lexicon} {source : Source} {tokens front inside back : List Token}
  {opener closer token : Token}

namespace Operator

variable {left right : Operator} {text : String}

/-! ## The outer faces of brackets -/

/-- Before a face that takes the void operand beside it, a group starts. -/
theorem order_of_immediate_left (looser : left.right.priority.band ≤ 320)
    (face_eq : right.left = .immediate text) : order left right = .ok .right := by
  have tighter : left.right.priority < right.left.priority := by
    rw [face_eq]
    exact .inl (Nat.lt_of_le_of_lt looser (show 320 < 1000 by decide))
  have refused : left.right.accepts right.left = false := by
    rw [face_eq, Face.immediate, Face.accepts]
    split <;> simp_all
  rw [order, refused, if_neg Bool.false_ne_true, if_neg (by simp [face_eq, Face.immediate,
    Merge.isRequired]), if_neg (Priority.lt_asymm tighter), if_pos tighter]

/-- Behind a face that takes the void operand beside it, a group ends. -/
theorem order_of_immediate_right (face_eq : left.right = .immediate text)
    (bounded : right.left.priority.band ≤ 320 ∨ ∃ other, right.left = .immediate other) :
    order left right = .ok .left := by
  have refused : left.right.accepts right.left = false := by
    rw [face_eq, Face.immediate, Face.accepts]
  rw [order, refused, if_neg Bool.false_ne_true, if_neg (by simp [face_eq, Face.immediate,
    Merge.isRequired])]
  rcases bounded with looser | ⟨other, other_eq⟩
  · rw [if_pos]
    rw [face_eq]
    exact .inl (Nat.lt_of_le_of_lt looser (show 320 < 1000 by decide))
  · simp [face_eq, other_eq, Face.immediate, Priority.lt_irrefl]

theorem marker_band_le (length : Nat) : (Priority.marker length).band ≤ 320 :=
  Nat.max_le.mpr ⟨Nat.le_trans (Nat.sub_le 99 length) (by decide), by decide⟩

theorem lineBreakPriority_le (token : Token) : (lineBreakPriority token).band ≤ 320 := by
  rw [lineBreakPriority]
  split <;> decide

theorem juxtapositionPriority_le (token : Token) : (juxtapositionPriority token).band ≤ 320 := by
  rw [juxtapositionPriority]
  split
  · exact lineBreakPriority_le token
  · split <;> decide

theorem separatorPriority_le (token : Token) : (separatorPriority token).band ≤ 320 := by
  rw [separatorPriority]
  split <;> decide

theorem lineFaces_bounded (token : Token) (fixity : Fixity) :
    ((lineFaces token fixity).1.priority.band ≤ 320 ∨
        (lineFaces token fixity).1 = .immediate token.text) ∧
      (fixity ≠ .suffixOp → (lineFaces token fixity).2.priority.band ≤ 320) := by
  cases fixity <;> simp [lineFaces, Priority.byWidth, Priority.lineEdge, Priority.wideLine]

theorem inlineFaces_bounded (token : Token) (fixity : Fixity) :
    ((inlineFaces token fixity).1.priority.band ≤ 320 ∨
        (inlineFaces token fixity).1 = .immediate token.text) ∧
      (fixity ≠ .suffixOp → (inlineFaces token fixity).2.priority.band ≤ 320) := by
  have marker := marker_band_le token.text.length
  have joining : (if token.isSpaced then Priority.spacedOperator else .operator).band ≤ 320 := by
    split <;> decide
  cases fixity with
  | prefixOp =>
      refine ⟨.inr rfl, fun _ => ?_⟩
      simp only [inlineFaces]
      split
      · exact (by decide : Priority.spacedOperator.band ≤ 320)
      · exact marker
  | suffixOp =>
      refine ⟨.inl ?_, fun other => absurd rfl other⟩
      simp only [inlineFaces]
      split
      · exact (by decide : Priority.spacedOperator.band ≤ 320)
      · exact marker
  | infixOp | ambiguous => exact ⟨.inl joining, fun _ => joining⟩

/-- Nothing binds tighter on its left than what takes the void operand there. -/
theorem ofToken_left_bounded (lexicon : Lexicon) (token : Token) :
    (ofToken lexicon token).left.priority.band ≤ 320 ∨
      ∃ text, (ofToken lexicon token).left = .immediate text := by
  simp only [ofToken, faces]
  split
  · exact .inr ⟨_, rfl⟩
  · exact .inl (Nat.zero_le _)
  · exact .inl (by decide)
  · exact .inl (by decide)
  · exact .inl (lineBreakPriority_le token)
  · exact .inl (juxtapositionPriority_le token)
  · exact .inl (separatorPriority_le token)
  all_goals
    split
    · exact (lineFaces_bounded token _).1.imp_right fun face_eq => ⟨_, face_eq⟩
    · exact (inlineFaces_bounded token _).1.imp_right fun face_eq => ⟨_, face_eq⟩

/-- An operator that lacks no operand behind it binds looser there than what takes a
void one. -/
theorem ofToken_right_bounded (fits : token.Fits lexicon) (leads : token.kind.role ≠ .behind) :
    (ofToken lexicon token).right.priority.band ≤ 320 := by
  have allowed := fits.allowed
  have fixity_ne : token.kind.fixity?.getD .infixOp ≠ .suffixOp := by
    intro fixity_eq
    apply leads
    cases kind_eq : token.kind with
    | operator fixity =>
        rw [kind_eq] at fixity_eq
        rw [show fixity = .suffixOp from fixity_eq]
        rfl
    | identifier | nullary | void =>
        rw [kind_eq] at fixity_eq
        contradiction
  simp only [ofToken, faces]
  split
  · exact Nat.zero_le _
  · next lexeme_eq =>
      rw [lexeme_eq] at allowed
      exact absurd (by rw [show token.kind = _ from allowed]; rfl) leads
  · decide
  · next lexeme_eq =>
      rw [lexeme_eq] at allowed
      exact absurd (by rw [show token.kind = _ from allowed]; rfl) leads
  · exact lineBreakPriority_le token
  · exact juxtapositionPriority_le token
  · exact separatorPriority_le token
  all_goals
    split
    · exact (lineFaces_bounded token _).2 fixity_ne
    · exact (inlineFaces_bounded token _).2 fixity_ne

end Operator

/-! ## Brackets in a stream -/

/-- The tree that tokens group to. -/
def groupTokens (lexicon : Lexicon) (tokens : List Token) :
    Except Error (Tree Token Operator) :=
  treeGrammar.group ((tokens.map (Token.element lexicon)).map .ok)

theorem Turns.split {due after : Bool} {first second : List Token}
    (turns : Turns due (first ++ second) after) :
    ∃ middle, Turns due first middle ∧ Turns middle second after := by
  induction first generalizing due with
  | nil => exact ⟨due, .nil due, turns⟩
  | cons token first ih =>
      cases turns with
      | cons turn rest =>
          obtain ⟨middle, firstTurns, secondTurns⟩ := ih rest
          exact ⟨middle, .cons turn firstTurns, secondTurns⟩

/-- An error-free stream whose brackets are well nested is grouped. -/
theorem exists_groupTokens (fits : ∀ token ∈ tokens, token.Fits lexicon)
    (turns : Turns true tokens false)
    (nests : (nest [] (delimiterOperators lexicon tokens)).bind unclosed = .ok ()) :
    ∃ tree, groupTokens lexicon tokens = .ok tree := by
  have grouped := group_nest (alternates_of_turns turns)
    (allFit_of_elements_fit (elements_fit fits))
  rw [nest_elements fits, nests] at grouped
  obtain ⟨tree, tree_eq, _⟩ := Except.agree_ok_iff.mp grouped
  exact ⟨tree, tree_eq⟩

theorem exists_of_operator_mem {op : Operator}
    (member : .operator op ∈ tokens.map (Token.element lexicon)) :
    ∃ token ∈ tokens, op = ofToken lexicon token := by
  obtain ⟨token, tokenMem, element_eq⟩ := List.mem_map.mp member
  exact ⟨token, tokenMem, eq_of_element_eq_operator element_eq⟩

/-- A bracket and its partner enclose what lies between them. -/
theorem brackets_enclose (fits : ∀ token ∈ front ++ opener :: inside ++ closer :: back,
      token.Fits lexicon)
    (opener_eq : opener.lexeme = .opener) (closer_eq : closer.lexeme = .closer)
    (leads : ∀ left ∈ front.getLast?, left.kind.role ≠ .behind)
    (accepts : (ofToken lexicon opener).right.accepts (ofToken lexicon closer).left = true) :
    Encloses order mayStart mayEnd (ofToken lexicon opener) (ofToken lexicon closer)
      (front.map (Token.element lexicon)) (inside.map (Token.element lexicon))
      (back.map (Token.element lexicon)) := by
  have openerFits : (ofToken lexicon opener).Fits lexicon := ⟨fits opener (by simp), rfl⟩
  have closerFits : (ofToken lexicon closer).Fits lexicon := ⟨fits closer (by simp), rfl⟩
  have openerLeft : (ofToken lexicon opener).left = .immediate opener.text := by
    simp [ofToken, faces, opener_eq]
  have closerRight : (ofToken lexicon closer).right = .immediate closer.text := by
    simp [ofToken, faces, closer_eq]
  have waits : (ofToken lexicon opener).right.merge.isRequired = true :=
    openerFits.right_isRequired_iff.mpr (.inl opener_eq)
  have needs : (ofToken lexicon closer).left.merge.isRequired = true :=
    closerFits.left_isRequired_iff.mpr (.inl closer_eq)
  have insideFits : ∀ op, .operator op ∈ inside.map (Token.element lexicon) →
      op.Fits lexicon := by
    intro op member
    obtain ⟨token, tokenMem, rfl⟩ := exists_of_operator_mem member
    exact ⟨fits token (by simp [tokenMem]), rfl⟩
  constructor
  · intro op last_eq
    rw [List.getLast?_map] at last_eq
    obtain ⟨left, leftMem, element_eq⟩ := Option.map_eq_some_iff.mp last_eq
    obtain rfl := eq_of_element_eq_operator element_eq
    have leftFits := fits left (by simp [List.mem_of_getLast? leftMem])
    exact order_of_immediate_left (ofToken_right_bounded leftFits (leads left leftMem)) openerLeft
  · rw [mayStart, openerLeft]
    rfl
  · intro op member allowed
    have opFits := insideFits op member
    have optional : op.left.merge.isRequired = false := by
      rw [opFits.mayStart_eq] at allowed
      by_contra needed
      simp [needed] at allowed
    have refused : (ofToken lexicon opener).right.accepts op.left = false := by
      by_contra joined
      rw [Bool.not_eq_false] at joined
      rw [openerFits.isRequired_eq_of_accepts opFits joined, optional] at waits
      contradiction
    exact order_eq_right openerFits.rightRuled opFits.leftRuled refused waits optional
  · intro op member allowed
    have opFits := insideFits op member
    have optional : op.right.merge.isRequired = false := by
      rw [opFits.mayEnd_eq] at allowed
      by_contra needed
      simp [needed] at allowed
    have refused : op.right.accepts (ofToken lexicon closer).left = false := by
      by_contra joined
      rw [Bool.not_eq_false] at joined
      rw [← opFits.isRequired_eq_of_accepts closerFits joined, optional] at needs
      contradiction
    exact order_eq_left opFits.rightRuled closerFits.leftRuled refused optional needs
  · exact order_of_accepts accepts
  · rw [mayEnd, closerRight]
    rfl
  · intro op member
    obtain ⟨token, _, rfl⟩ := exists_of_operator_mem member
    exact order_of_immediate_right closerRight (ofToken_left_bounded lexicon token)

theorem bracketTokens_delimiterOperators (tokens : List Token) :
    bracketTokens (delimiterOperators lexicon tokens) = tokens.filter Token.isBracket := by
  have kept : (delimiterOperators lexicon tokens).map Operator.token = delimiters tokens := by
    rw [delimiterOperators, List.map_map]
    exact List.map_id _
  rw [bracketTokens, kept, Steps.filter_delimiters]

/-- Between a bracket and its partner, the delimiters of a stream nest by
themselves. -/
theorem nest_inside (fits : ∀ token ∈ front ++ opener :: inside ++ closer :: back,
      token.Fits lexicon)
    (opener_eq : opener.lexeme = .opener) (closer_eq : closer.lexeme = .closer)
    (inner : Nested lexicon (inside.filter Token.isBracket))
    (nests : (nest [] (delimiterOperators lexicon
      (front ++ opener :: inside ++ closer :: back))).bind unclosed = .ok ()) :
    (nest [] (delimiterOperators lexicon inside)).bind unclosed = .ok () ∧
      (ofToken lexicon opener).right.accepts (ofToken lexicon closer).left = true := by
  obtain ⟨reached, nest_eq, -⟩ := Except.bind_eq_ok_iff.mp nests
  have split_eq : delimiterOperators lexicon (front ++ opener :: inside ++ closer :: back) =
      delimiterOperators lexicon front ++ ofToken lexicon opener ::
        delimiterOperators lexicon inside ++ ofToken lexicon closer ::
          delimiterOperators lexicon back := by
    rw [← List.singleton_append (l := inside), ← List.singleton_append (l := back)]
    simp only [delimiterOperators_append]
    rw [delimiterOperators_of_isDelimiter (by rw [opener_eq]; rfl),
      delimiterOperators_of_isDelimiter (by rw [closer_eq]; rfl)]
    simp
  have opFits : ∀ op ∈ delimiterOperators lexicon (front ++ opener :: inside ++ closer :: back),
      op.Fits lexicon := by
    intro op member
    obtain ⟨token, tokenMem, rfl⟩ := List.mem_map.mp member
    exact ⟨fits token (List.mem_filter.mp tokenMem).1, rfl⟩
  rw [split_eq] at opFits nest_eq
  obtain ⟨inside_eq, accepts⟩ := nest_between opFits opener_eq closer_eq
    (by rwa [bracketTokens_delimiterOperators]) nest_eq
  rw [inside_eq]
  exact ⟨rfl, accepts⟩

/-- What is known of a bracket and its partner in a stream without an error. -/
structure Enclosing (opener closer : Token) (front inside back : List Token) : Prop where
  opener : opener.isOperand = false
  closer : closer.isOperand = false
  before : ∃ before left, front = before ++ [left] ∧ left.kind = .void ∧
    ∀ op ∈ before.getLast?, op.kind.role ≠ .behind
  after : ∃ right after, back = right :: after ∧ right.kind = .void
  turns : Turns true inside false

theorem exists_enclosing (fits : ∀ token ∈ front ++ opener :: inside ++ closer :: back,
      token.Fits lexicon)
    (opener_eq : opener.lexeme = .opener) (closer_eq : closer.lexeme = .closer)
    {after : Bool} (turns : Turns true (front ++ opener :: inside ++ closer :: back) after)
    (flanked : Alternation.Flanked .between (front ++ opener :: inside ++ closer :: back)) :
    Enclosing opener closer front inside back := by
  have openerKind : opener.kind = .operator .prefixOp := by
    have allowed := (fits opener (by simp)).allowed
    rwa [opener_eq] at allowed
  have closerKind : closer.kind = .operator .suffixOp := by
    have allowed := (fits closer (by simp)).allowed
    rwa [closer_eq] at allowed
  have openerTurn : opener.isOperand = false := by rw [Token.isOperand, openerKind]; rfl
  have closerTurn : closer.isOperand = false := by rw [Token.isOperand, closerKind]; rfl
  rw [List.append_assoc] at turns flanked
  obtain ⟨⟨before, left, rfl, _, flank⟩, rest⟩ := flanked.split openerTurn
  obtain ⟨void, _, leads⟩ := flank (by rw [openerKind]; rfl)
  obtain ⟨-, behind⟩ := rest.split closerTurn
  rw [closerKind] at behind
  obtain ⟨middle, -, turns⟩ := turns.split
  rw [List.cons_append] at turns
  cases turns with
  | cons turn turns =>
      rw [← turn, openerTurn] at turns
      obtain ⟨middle, insideTurns, turns⟩ := turns.split
      cases turns with
      | cons turn _ =>
          rw [← turn, closerTurn] at insideTurns
          exact ⟨openerTurn, closerTurn, ⟨before, left, rfl, void, leads⟩, behind.exists_void,
            insideTurns⟩

theorem isOperand_of_void (void : token.kind = .void) : token.isOperand = true := by
  rw [Token.isOperand, void]
  rfl

theorem enclosed_elements {before after : List Token} {left right : Token}
    (leftVoid : left.kind = .void) (rightVoid : right.kind = .void)
    (openerTurn : opener.isOperand = false) (closerTurn : closer.isOperand = false) :
    (before ++ [left] ++ opener :: inside ++ closer :: right :: after).map
        (Token.element lexicon) =
      before.map (Token.element lexicon) ++ (.operand left :: .operator (ofToken lexicon opener) ::
        inside.map (Token.element lexicon) ++ [.operator (ofToken lexicon closer)] ++
          .operand right :: after.map (Token.element lexicon)) := by
  simp [element_of_isOperand (isOperand_of_void leftVoid),
    element_of_isOperand (isOperand_of_void rightVoid), element_of_isOperator openerTurn,
    element_of_isOperator closerTurn]

/-- What stands between a bracket and its partner is grouped as if it were alone, and
what stands around them as if there were one operand in their place.  On either side of
the two is a void operand. -/
theorem brackets_isolate (stream_eq : tokenStream lexicon source = tokens.map .ok)
    (nested : Nested lexicon (tokens.filter Token.isBracket))
    (tokens_eq : tokens = front ++ opener :: inside ++ closer :: back)
    (opener_eq : opener.lexeme = .opener) (closer_eq : closer.lexeme = .closer)
    (inner : Nested lexicon (inside.filter Token.isBracket)) :
    ∃ before left right after tree outer,
      front = before ++ [left] ∧ left.kind = .void ∧ back = right :: after ∧ right.kind = .void ∧
      groupTokens lexicon inside = .ok tree ∧
      treeGrammar.group ((hollow (before.map (Token.element lexicon))
        (after.map (Token.element lexicon))).map .ok) = .ok outer ∧
      groupTokens lexicon tokens =
        .ok (outer.plug (.group [ofToken lexicon opener, ofToken lexicon closer]
          [.leaf left, tree, .leaf right])) := by
  rw [← stream_none] at stream_eq
  have streams := streams_of_eq stream_eq
  obtain ⟨steps, steps_eq⟩ := exists_steps lexicon source
  obtain ⟨same, none_eq⟩ := stream_inj (stream_eq.symm.trans steps_eq)
  have flanked := steps.flanked none_eq.symm
  have brackets_eq := steps.filter_isBracket none_eq.symm
  rw [← same] at flanked brackets_eq
  have nests := streams.nests rfl
  rw [← brackets_eq, (nested_iff_blame_eq_none fun bracket member =>
    (List.mem_filter.mp member).2).mp nested] at nests
  obtain ⟨ending, turns, balanced⟩ := streams.turns
  obtain rfl := balanced rfl
  have fits := streams.fits
  obtain ⟨whole, whole_eq⟩ := exists_groupTokens fits turns nests
  subst tokens_eq
  obtain ⟨insideNests, accepts⟩ := nest_inside fits opener_eq closer_eq inner nests
  obtain ⟨openerTurn, closerTurn, ⟨before, left, rfl, leftVoid, leads⟩,
    ⟨right, after, rfl, rightVoid⟩, insideTurns⟩ :=
      exists_enclosing fits opener_eq closer_eq turns flanked
  obtain ⟨tree, tree_eq⟩ := exists_groupTokens (fun token member => fits token (by simp [member]))
    insideTurns insideNests
  have encloses := @brackets_enclose lexicon before inside after opener closer
    (fun token member => fits token (by
      simp only [List.mem_append, List.mem_cons] at member ⊢
      tauto))
    opener_eq closer_eq leads accepts
  rw [groupTokens, enclosed_elements leftVoid rightVoid openerTurn closerTurn] at whole_eq
  obtain ⟨outer, outer_eq, rfl⟩ := encloses.group_eq tree_eq whole_eq
  refine ⟨before, left, right, after, tree, outer, rfl, leftVoid, rfl, rightVoid, tree_eq, outer_eq,
    ?_⟩
  rw [groupTokens, enclosed_elements leftVoid rightVoid openerTurn closerTurn]
  exact whole_eq

/-- A text with a loose operator inside brackets and a tight one before them. -/
def bracketedText : Source :=
  ⟨"a*[b + c]", none, 0⟩

/-- Its opening bracket. -/
def bracketedOpener : Token :=
  { kind := .operator .prefixOp, lexeme := .opener, text := "[", before := "", after := "",
    span := .between 2 3, lineOperator := false }

/-- Its closing bracket. -/
def bracketedCloser : Token :=
  { kind := .operator .suffixOp, lexeme := .closer, text := "]", before := "", after := "",
    span := .between 8 9, lineOperator := false }

/-- Its tokens. -/
def bracketedTokens : List Token :=
  (tokenStream .standard bracketedText).filterMap Except.toOption

theorem brackets_isolate_argument :
    ∃ before left inside right after tree outer,
      bracketedTokens =
          before ++ [left] ++ bracketedOpener :: inside ++ bracketedCloser :: right :: after ∧
        before.map Token.text = ["a", "*"] ∧ inside.map Token.text = ["b", "+", "c"] ∧
        left.kind = .void ∧ right.kind = .void ∧
        groupTokens .standard inside = .ok tree ∧
        treeGrammar.group ((hollow (before.map (Token.element .standard))
          (after.map (Token.element .standard))).map .ok) = .ok outer ∧
        groupTokens .standard bracketedTokens =
          .ok (outer.plug (.group
            [ofToken .standard bracketedOpener, ofToken .standard bracketedCloser]
            [.leaf left, tree, .leaf right])) := by
  have stream_eq : tokenStream .standard bracketedText = bracketedTokens.map .ok := by cbv
  -- One evaluation of the stream gives all that is read off it.
  obtain ⟨split_eq, brackets_eq, inside_eq, beforeTexts, insideTexts⟩ :
      bracketedTokens = bracketedTokens.take 3 ++
          bracketedOpener :: (bracketedTokens.drop 4).take 3 ++
            bracketedCloser :: bracketedTokens.drop 8 ∧
        bracketedTokens.filter Token.isBracket = [bracketedOpener, bracketedCloser] ∧
        ((bracketedTokens.drop 4).take 3).filter Token.isBracket = [] ∧
        (bracketedTokens.take 3).dropLast.map Token.text = ["a", "*"] ∧
        ((bracketedTokens.drop 4).take 3).map Token.text = ["b", "+", "c"] := by
    cbv
  have nested : Nested .standard (bracketedOpener :: [] ++ bracketedCloser :: []) :=
    .pair rfl rfl (by decide) .nil .nil
  obtain ⟨before, left, right, after, tree, outer, front_eq, leftVoid, back_eq, rightVoid, rest⟩ :=
    brackets_isolate stream_eq (brackets_eq ▸ nested) split_eq rfl rfl (inside_eq ▸ .nil)
  rw [front_eq, List.dropLast_concat] at beforeTexts
  rw [front_eq, back_eq] at split_eq
  exact ⟨before, left, _, right, after, tree, outer, split_eq, beforeTexts, insideTexts, leftVoid,
    rightVoid, rest⟩

end OperatorMarkup
